import InfrixPlayground.Lib.Tally
import InfrixPlayground.Api.Counters
import InfrixPlayground.Api.Verify

/-!
# `Api.Site` — the whole server

The run endpoints share their counters, and one of them its limiter, with handlers that start no run: the
verifier, the receipts, the onboarding events, the metrics themselves. `Site` is all of them at once, each
request at a point of its own. Every counter is incremented by a statement of its own, ahead of the answer it
is about, and whoever reads the counters may come in between: `answeredIn` is the counter an answer belongs
in, `between` the one a request has been counted in already. `counters_exact` says what `/metrics` shows by
these two, over all runs and requests, and `events_exact` what is kept of the events.
-/

namespace InfrixPlayground
namespace Api

open Worker Machine

/-! ## Onboarding events -/

/-- The published `onboardingmetrics` module, `schemaom`. -/
structure Onboarding where
  Event : Type
  source : Event → String
  sourceNexus : String
  sourceCinema : String
  sourceHosted : String
  /-- `Decode` of a body of at most 8 KiB, with unknown fields disallowed. -/
  decode : GoText.Bytes → Except String Event
  /-- The error of `Event.Validate`, if any. -/
  validate : Event → Option String
  sensitiveField : Event → Option String
  redact : Event → Event
  Summary : Type
  summarize : List Event → Summary

variable {X : Externals} {M : Onboarding}

/-- Where `POST /api/events` stands. -/
inductive EventStage (M : Onboarding) where
  | received
  /-- A field carries sensitive data; not counted yet. -/
  | sensitive (field : String)
  /-- Counted, not answered yet. -/
  | barring (field : String)
  /-- Answered 400 for the sensitive field. -/
  | barred (field : String)
  /-- Answered 400. -/
  | rejected (message : String)
  /-- About to be stored. -/
  | accepted (e : M.Event)
  /-- Stored, not counted yet. -/
  | stored (e : M.Event)
  /-- Stored and counted, not answered yet. -/
  | counted (e : M.Event)
  /-- Answered 202. -/
  | taken (e : M.Event)

/-- The checks of an event, in order. -/
def checkEvent (M : Onboarding) (body : GoText.Bytes) : EventStage M :=
  match M.decode body with
  | .error err => .rejected ("invalid event: " ++ err)
  | .ok e =>
    if M.source e ≠ M.sourceNexus ∧ M.source e ≠ M.sourceCinema ∧ M.source e ≠ M.sourceHosted then
      .rejected "event source must be nexus|cinema|hosted"
    else
      match M.validate e with
      | some err => .rejected ("event failed validation: " ++ err)
      | none =>
        match M.sensitiveField e with
        | some field => .sensitive field
        | none => .accepted e

/-- The answer of `POST /api/events`: a status, and the message of a refusal. -/
def EventStage.reply : EventStage M → Option (Nat × String)
  | .barred field => some (400, "event field " ++ field ++ " carries sensitive data; send redacted events only")
  | .rejected message => some (400, message)
  | .taken _ => some (202, "")
  | _ => none

/-! ## The other requests -/

/-- Where `POST /api/verify` stands. -/
inductive VerifyStage (X : Externals) where
  | received
  /-- Denied by the limiter, not counted yet. -/
  | denied
  /-- Counted as a denial, not answered yet. -/
  | denying
  | allowed
  /-- Decoded, not counted yet. -/
  | decoded (pkg : X.Package)
  /-- Counted, not answered yet. -/
  | counted (pkg : X.Package)
  | answered (reply : Except (Nat × String) (VerifyReply X))

/-- Where `GET /api/receipts/{id}` stands. -/
inductive ViewStage (X : Externals) where
  | received
  /-- Found, not counted yet. -/
  | found (run : StoredRun X)
  /-- Counted, not answered yet. -/
  | counted (run : StoredRun X)
  | answered (reply : Except (Nat × String) (ReceiptView X))

/-- What a request to one of the other endpoints asks for. -/
inductive OtherEndpoint where
  | verify (http : HttpRequest)
  | getReceipt (id : String)
  | getBundle (id : String)
  | postEvent (body : GoText.Bytes)
  | eventsSummary
  | metrics

/-- The counters as `/metrics` shows them. -/
abbrev MetricsView := AList fun _ : String => Int

/-- A request to one of the other endpoints, and where its handling stands. -/
inductive OtherRequest (X : Externals) (M : Onboarding) where
  | verify (http : HttpRequest) (stage : VerifyStage X)
  | getReceipt (id : String) (stage : ViewStage X)
  | getBundle (id : String) (reply : Option (Except (Nat × String) BundleReply))
  | postEvent (body : GoText.Bytes) (stage : EventStage M)
  | eventsSummary (reply : Option M.Summary)
  | metrics (reply : Option MetricsView)

/-- A request that just came in. -/
def OtherRequest.new : OtherEndpoint → OtherRequest X M
  | .verify http => .verify http .received
  | .getReceipt id => .getReceipt id .received
  | .getBundle id => .getBundle id none
  | .postEvent body => .postEvent body .received
  | .eventsSummary => .eventsSummary none
  | .metrics => .metrics none

/-- `Snapshot`: a copy of the counters, and the uptime in whole seconds. -/
def Metrics.view (m : Metrics) (uptime : Time) : MetricsView :=
  (AList.insertAll (fun c : (_ : String) × Nat => some (c.1, (c.2 : Int))) ∅ m.entries).insert "uptime_seconds"
    (uptime.num.tdiv uptime.den)

/-- One step of the handling of such a request: the server, the stored events and the request after it. -/
def OtherRequest.step (D : UploadCodec X) (startedAt : Time) (s : Server X) (events : List M.Event) (now : Time) :
    OtherRequest X M → Option (Server X × List M.Event × OtherRequest X M)
  | .verify http .received =>
    let (limiter, d) := s.limiter.allow now (clientKey http)
    some ({ s with limiter := limiter }, events, .verify http (if d.allowed then .allowed else .denied))
  | .verify http .denied => some (s.inc metricRateLimited, events, .verify http .denying)
  | .verify http .denying =>
    some (s, events, .verify http
      (.answered (.error (429, "rate limit exceeded — please wait a moment and try again"))))
  | .verify http .allowed =>
    match D.decodePackage (http.body.take s.guard.maxUploadBytes) with
    | none => some (s, events, .verify http (.answered (.error (400, "invalid portable evidence package JSON"))))
    | some pkg => some (s, events, .verify http (.decoded pkg))
  | .verify http (.decoded pkg) => some (s.inc metricVerifications, events, .verify http (.counted pkg))
  | .verify http (.counted pkg) => some (s, events, .verify http (.answered (.ok (verifyReply pkg))))
  | .verify _ (.answered _) => none
  | .getReceipt id .received =>
    match s.runs.store.get id with
    | none => some (s, events, .getReceipt id (.answered (.error (404, "receipt not found"))))
    | some run => some (s, events, .getReceipt id (.found run))
  | .getReceipt id (.found run) => some (s.inc metricReceiptViews, events, .getReceipt id (.counted run))
  | .getReceipt id (.counted run) => some (s, events, .getReceipt id (.answered (.ok (receiptView run))))
  | .getReceipt _ (.answered _) => none
  | .getBundle id none => some (s, events, .getBundle id (some (handleGetBundle s.runs.store id)))
  | .getBundle _ (some _) => none
  | .postEvent body .received => some (s, events, .postEvent body (checkEvent M body))
  | .postEvent body (.sensitive field) =>
    some (s.inc metricAbuseRejections, events, .postEvent body (.barring field))
  | .postEvent body (.barring field) => some (s, events, .postEvent body (.barred field))
  | .postEvent body (.accepted e) => some (s, events ++ [M.redact e], .postEvent body (.stored e))
  | .postEvent body (.stored e) => some (s.inc metricEventsReceived, events, .postEvent body (.counted e))
  | .postEvent body (.counted e) => some (s, events, .postEvent body (.taken e))
  | .postEvent _ _ => none
  | .eventsSummary none => some (s, events, .eventsSummary (some (M.summarize events)))
  | .eventsSummary (some _) => none
  | .metrics none => some (s, events, .metrics (some (s.runs.metrics.view (now - startedAt))))
  | .metrics (some _) => none

/-- **The verifier in one step.** With nothing in between, the handling of an upload is `handleVerify`. -/
theorem handleVerify_steps (D : UploadCodec X) (startedAt : Time) (s : Server X) (events : List M.Event) (now : Time)
    (http : HttpRequest) : ∃ n, exec (fun p now => p.2.2.step D startedAt p.1 p.2.1 now)
      (s, events, OtherRequest.verify http .received) (List.replicate n now)
        = some ((s.handleVerify D now http).1, events,
            .verify http (.answered (s.handleVerify D now http).2)) := by
  unfold Server.handleVerify
  cases hallow : s.limiter.allow now (clientKey http) with
  | mk limiter d =>
      have hask : (OtherRequest.verify http .received : OtherRequest X M).step D startedAt s events now
          = some ({ s with limiter := limiter }, events, .verify http (if d.allowed then .allowed else .denied)) := by
        simp only [OtherRequest.step, hallow]
      cases hd : d.allowed with
      | false =>
          rw [hd] at hask
          refine ⟨3, exec_cons_iff.mpr ⟨_, hask, ?_⟩⟩
          simp only [hd, Bool.not_false, if_true]
          rfl
      | true =>
          rw [hd] at hask
          have hread : (OtherRequest.verify http .allowed : OtherRequest X M).step D startedAt
              { s with limiter := limiter } events now
              = match D.decodePackage (http.body.take s.guard.maxUploadBytes) with
                | none => some ({ s with limiter := limiter }, events, .verify http
                    (.answered (.error (400, "invalid portable evidence package JSON"))))
                | some pkg => some ({ s with limiter := limiter }, events, .verify http (.decoded pkg)) := rfl
          cases hdecode : D.decodePackage (http.body.take s.guard.maxUploadBytes) with
          | none =>
              rw [hdecode] at hread
              refine ⟨2, exec_cons_iff.mpr ⟨_, hask, exec_cons_iff.mpr ⟨_, hread, ?_⟩⟩⟩
              simp only [hd, hdecode, Bool.not_true, Bool.false_eq_true, if_false]
              rfl
          | some pkg =>
              rw [hdecode] at hread
              refine ⟨4, exec_cons_iff.mpr ⟨_, hask, exec_cons_iff.mpr ⟨_, hread, ?_⟩⟩⟩
              simp only [hd, hdecode, Bool.not_true, Bool.false_eq_true, if_false]
              rfl

/-- So is the handling of a receipt request `handleGetReceipt`. -/
theorem handleGetReceipt_steps (D : UploadCodec X) (startedAt : Time) (s : Server X) (events : List M.Event)
    (now : Time) (id : String) : ∃ n, exec (fun p now => p.2.2.step D startedAt p.1 p.2.1 now)
      (s, events, OtherRequest.getReceipt id .received) (List.replicate n now)
        = some ({ s with runs := { s.runs with
              metrics := (handleGetReceipt s.runs.store s.runs.metrics id).1 } }, events,
            .getReceipt id (.answered (handleGetReceipt s.runs.store s.runs.metrics id).2)) := by
  have hlook : (OtherRequest.getReceipt id .received : OtherRequest X M).step D startedAt s events now
      = match s.runs.store.get id with
        | none => some (s, events, .getReceipt id (.answered (.error (404, "receipt not found"))))
        | some run => some (s, events, .getReceipt id (.found run)) := rfl
  unfold handleGetReceipt
  cases hget : s.runs.store.get id with
  | none =>
      rw [hget] at hlook
      exact ⟨1, exec_cons_iff.mpr ⟨_, hlook, rfl⟩⟩
  | some run =>
      rw [hget] at hlook
      exact ⟨3, exec_cons_iff.mpr ⟨_, hlook, rfl⟩⟩

/-! ## The site -/

/-- The server with all its requests. -/
structure Site (X : Externals) (M : Onboarding) where
  startedAt : Time
  serving : Serving X
  events : List M.Event
  others : List (OtherRequest X M)

def Site.new (M : Onboarding) (startedAt : Time) (server : Server X) : Site X M :=
  { startedAt, serving := .new server, events := [], others := [] }

inductive SiteAction where
  /-- A step of the run endpoints, of a run, or of the cleanup job. -/
  | serving (a : ServingAction)
  | receive (endpoint : OtherEndpoint)
  | handle (i : Nat) (now : Time)

/-- One step. -/
def Site.step (D : UploadCodec X) (s : Site X M) : SiteAction → Option (Site X M)
  | .serving a =>
    match a with
    -- what others do is done by the others here
    | .verify .. | .inc _ => none
    | a => (s.serving.step a).map fun serving => { s with serving := serving }
  | .receive endpoint => some { s with others := s.others ++ [.new endpoint] }
  | .handle i now =>
    match s.others[i]? with
    | none => none
    | some o =>
      (o.step D s.startedAt s.serving.server s.events now).map fun p =>
        { s with serving := { s.serving with server := p.1 }, events := p.2.1, others := s.others.set i p.2.2 }

/-! ## Who has counted what -/

/-- The flow of a request for a run is not on the allowlist. -/
def offList (X : Externals) (guard : AbuseGuard) (body : GoText.Bytes) : Bool :=
  match X.decodeRunRequest body with
  | none => false
  | some req => (guard.checkFlow X (requestedFlow req)).isSome

/-- The counters that the answer of a request for a run belongs in. -/
def Request.answeredIn (X : Externals) (guard : AbuseGuard) (q : Request) : List String :=
  match q.stage with
  | .answered reply =>
    if reply.status = 429 then [metricRateLimited]
    else if offList X guard q.http.body then [metricAbuseRejections] else []
  | _ => []

/-- The counter in which a request for a run has been counted ahead of its answer. -/
def Request.between (q : Request) : Option String :=
  match q.stage with
  | .refusing _ => some metricAbuseRejections
  | .denying _ => some metricRateLimited
  | _ => none

/-- The counters in which a request for a run has been counted. -/
def Request.countedIn (X : Externals) (guard : AbuseGuard) (q : Request) : List String :=
  q.answeredIn X guard ++ q.between.toList

/-- The counters that the answer of another request belongs in. -/
def OtherRequest.answeredIn : OtherRequest X M → List String
  | .verify _ (.answered (.error (429, _))) => [metricRateLimited]
  | .verify _ (.answered (.ok _)) => [metricVerifications]
  | .getReceipt _ (.answered (.ok _)) => [metricReceiptViews]
  | .postEvent _ (.barred _) => [metricAbuseRejections]
  | .postEvent _ (.taken _) => [metricEventsReceived]
  | _ => []

/-- The counter in which another request has been counted ahead of its answer. -/
def OtherRequest.between : OtherRequest X M → Option String
  | .verify _ .denying => some metricRateLimited
  | .verify _ (.counted _) => some metricVerifications
  | .getReceipt _ (.counted _) => some metricReceiptViews
  | .postEvent _ (.barring _) => some metricAbuseRejections
  | .postEvent _ (.counted _) => some metricEventsReceived
  | _ => none

/-- The counters in which another request has been counted. -/
def OtherRequest.countedIn (o : OtherRequest X M) : List String := o.answeredIn ++ o.between.toList

/-- What a request has left in the list of events. -/
def OtherRequest.kept : OtherRequest X M → Option M.Event
  | .postEvent _ (.stored e) => some (M.redact e)
  | .postEvent _ (.counted e) => some (M.redact e)
  | .postEvent _ (.taken e) => some (M.redact e)
  | _ => none

/-- **What a step of another request does**: it asks the limiter or nothing, or it counts itself in a counter
    for the first time, or it stores its event. -/
inductive OtherStep (s : Server X) (events : List M.Event) (o : OtherRequest X M) :
    Server X → List M.Event → OtherRequest X M → Prop where
  | quiet {limiter : RateLimiter} {o' : OtherRequest X M} (hcounted : o'.countedIn = o.countedIn)
      (hkept : o'.kept = o.kept) : OtherStep s events o { s with limiter := limiter } events o'
  | count {name : String} {o' : OtherRequest X M} (hnew : name ∉ o.countedIn)
      (hcounted : o'.countedIn = o.countedIn ++ [name]) (hkept : o'.kept = o.kept) :
      OtherStep s events o (s.inc name) events o'
  | store {e : M.Event} {o' : OtherRequest X M} (hcounted : o'.countedIn = o.countedIn)
      (hnone : o.kept = none) (hkept : o'.kept = some (M.redact e)) :
      OtherStep s events o s (events ++ [M.redact e]) o'

theorem checkEvent_quiet (body : GoText.Bytes) :
    (OtherRequest.postEvent body (checkEvent M body) : OtherRequest X M).countedIn = [] ∧
      (OtherRequest.postEvent body (checkEvent M body) : OtherRequest X M).kept = none := by
  unfold checkEvent
  split
  · exact ⟨rfl, rfl⟩
  · split
    · exact ⟨rfl, rfl⟩
    · split
      · exact ⟨rfl, rfl⟩
      · split <;> exact ⟨rfl, rfl⟩

theorem other_step {D : UploadCodec X} {startedAt now : Time} {s s' : Server X} {events events' : List M.Event}
    {o o' : OtherRequest X M} (h : o.step D startedAt s events now = some (s', events', o')) :
    OtherStep s events o s' events' o' := by
  -- a step that leaves the server as it is leaves its limiter as it is
  have hsame : ∀ {o' : OtherRequest X M}, o'.countedIn = o.countedIn → o'.kept = o.kept →
      OtherStep s events o s events o' := fun hcounted hkept => @OtherStep.quiet _ _ s events o s.limiter _ hcounted hkept
  cases o with
  | verify http stage =>
      cases stage with
      | received =>
          cases h
          refine .quiet ?_ rfl
          split <;> rfl
      | denied => cases h; exact .count List.not_mem_nil rfl rfl
      | denying => cases h; exact hsame rfl rfl
      | allowed =>
          rw [OtherRequest.step] at h
          split at h <;> cases h <;> exact hsame rfl rfl
      | decoded pkg => cases h; exact .count List.not_mem_nil rfl rfl
      | counted pkg => cases h; exact hsame rfl rfl
      | answered reply => cases h
  | getReceipt id stage =>
      cases stage with
      | received =>
          rw [OtherRequest.step] at h
          split at h <;> cases h <;> exact hsame rfl rfl
      | found run => cases h; exact .count List.not_mem_nil rfl rfl
      | counted run => cases h; exact hsame rfl rfl
      | answered reply => cases h
  | getBundle id reply =>
      cases reply with
      | none => cases h; exact hsame rfl rfl
      | some reply => cases h
  | postEvent body stage =>
      cases stage with
      | received =>
          cases h
          obtain ⟨hcounted, hkept⟩ := checkEvent_quiet (X := X) (M := M) body
          exact hsame hcounted hkept
      | sensitive field => cases h; exact .count List.not_mem_nil rfl rfl
      | barring field => cases h; exact hsame rfl rfl
      | accepted e => cases h; exact .store rfl rfl rfl
      | stored e => cases h; exact .count List.not_mem_nil rfl rfl
      | counted e => cases h; exact hsame rfl rfl
      | barred field => cases h
      | rejected message => cases h
      | taken e => cases h
  | eventsSummary reply =>
      cases reply with
      | none => cases h; exact hsame rfl rfl
      | some reply => cases h
  | metrics reply =>
      cases reply with
      | none => cases h; exact hsame rfl rfl
      | some reply => cases h

/-! ## Requests for runs -/

theorem checkMode_counted {cfg : Config} {kermitDisabled : String} {req : CreateRunRequest} {r : Refusal}
    (h : checkMode X cfg kermitDisabled req = some r) : r.counted = false ∧ r.status ≠ 429 := by
  have h400 : 400 ≠ 429 := by decide
  have h409 : 409 ≠ 429 := by decide
  unfold checkMode at h
  dsimp only at h
  split at h
  · cases h
    exact ⟨rfl, h400⟩
  · split at h
    · cases h
      exact ⟨rfl, h409⟩
    · cases h

/-- A refusal is counted exactly if the flow is not on the allowlist. -/
theorem screen_counted {cfg : Config} {guard : AbuseGuard} {kermitDisabled : String} {body : GoText.Bytes}
    {r : Refusal} (h : screen X cfg guard kermitDisabled body = .error r) :
    r.counted = offList X guard body ∧ r.status ≠ 429 := by
  have h400 : 400 ≠ 429 := by decide
  unfold screen at h
  unfold offList
  cases hdecode : X.decodeRunRequest body with
  | none =>
      rw [hdecode] at h
      cases h
      exact ⟨rfl, h400⟩
  | some req =>
      rw [hdecode] at h
      dsimp only at h ⊢
      cases hflow : guard.checkFlow X (requestedFlow req) with
      | some e =>
          rw [hflow] at h
          cases h
          exact ⟨rfl, h400⟩
      | none =>
          rw [hflow] at h
          dsimp only at h
          cases hmode : checkMode X cfg kermitDisabled req with
          | some r' =>
              rw [hmode] at h
              cases h
              exact checkMode_counted hmode
          | none =>
              rw [hmode] at h
              cases h

theorem offList_of_screen {cfg : Config} {guard : AbuseGuard} {kermitDisabled : String} {body : GoText.Bytes}
    {p : RunParams} (h : screen X cfg guard kermitDisabled body = .ok p) : offList X guard body = false := by
  unfold screen at h
  unfold offList
  cases hdecode : X.decodeRunRequest body with
  | none => rfl
  | some req =>
      rw [hdecode] at h
      dsimp only at h ⊢
      cases hflow : guard.checkFlow X (requestedFlow req) with
      | some e =>
          rw [hflow] at h
          cases h
      | none => rfl

/-- What a request's stage says about its flow. -/
def Request.Listed (X : Externals) (guard : AbuseGuard) (q : Request) : Prop :=
  match q.stage with
  | .received | .answered _ | .left => True
  | .refused r | .refusing r => offList X guard q.http.body = true ∧ r.status ≠ 429
  | _ => offList X guard q.http.body = false

/-- Only the stage of a request matters to what it has been counted in. -/
theorem Request.countedIn_of {guard : AbuseGuard} {q : Request} {stage : Stage} (hc : q.stage = stage) :
    q.countedIn X guard = (q.goto stage).countedIn X guard := by
  subst hc
  rfl

theorem Request.countedIn_answered {guard : AbuseGuard} {q : Request} {reply : Reply} :
    (q.goto (.answered reply)).countedIn X guard
      = if reply.status = 429 then [metricRateLimited]
        else if offList X guard q.http.body then [metricAbuseRejections] else [] :=
  List.append_nil _

/-- A request that is past `Start` is counted nowhere, and its flow is on the allowlist. -/
theorem Request.Listed.returned {guard : AbuseGuard} {q : Request} (h : q.Listed X guard) (hc : q.stage.Returned) :
    offList X guard q.http.body = false ∧ q.countedIn X guard = [] := by
  unfold Listed at h
  rw [Request.countedIn_of rfl]
  cases hstage : q.stage <;> rw [hstage] at h hc <;> first | exact hc.elim | exact ⟨h, rfl⟩

/-- What a step of the manager may be, as far as the counters go. -/
inductive Counting (m : RunManager X) (before after : List String) : RunManager X → Prop where
  | same (hsame : after = before) : Counting m before after m
  | manager {a : ManagerAction} {m' : RunManager X} (hs : ManagerStep m a m') (hsame : after = before) :
      Counting m before after m'
  | inc {name : String} (hnew : name ∉ before) (hgain : after = before ++ [name]) :
      Counting m before after { m with metrics := m.metrics.inc name }

/-- **A request for a run counts itself** when it is refused for its flow and when it is denied. -/
theorem HandleStep.counting {s s' : Server X} {q q' : Request} {now : Time} (hs : HandleStep s q now s' q')
    (h : q.Listed X s.guard) :
    q'.Listed X s.guard ∧ Counting s.runs (q.countedIn X s.guard) (q'.countedIn X s.guard) s'.runs := by
  have hfits := h
  unfold Request.Listed at h
  cases hs with
  | @refuse _ r hc hr =>
      obtain ⟨hcounted, hstatus⟩ := screen_counted hr
      rw [Request.countedIn_of hc]
      cases hlisted : r.counted with
      | true =>
          rw [hcounted] at hlisted
          exact ⟨⟨hlisted, hstatus⟩, .same rfl⟩
      | false =>
          rw [hcounted] at hlisted
          refine ⟨trivial, .same ?_⟩
          apply Request.countedIn_answered.trans
          rw [if_neg (show r.reply.status ≠ 429 from hstatus), hlisted]
          rfl
  | pass hc hp =>
      rw [Request.countedIn_of hc]
      exact ⟨offList_of_screen hp, .same rfl⟩
  | countRefused hc =>
      rw [Request.countedIn_of hc]
      rw [hc] at h
      exact ⟨h, .inc List.not_mem_nil rfl⟩
  | @replyRefused r hc =>
      rw [Request.countedIn_of hc]
      rw [hc] at h
      obtain ⟨hoff, hstatus⟩ := h
      refine ⟨trivial, .same ?_⟩
      apply Request.countedIn_answered.trans
      rw [if_neg (show r.reply.status ≠ 429 from hstatus), if_pos hoff]
      rfl
  | @ask p limiter d hc hd =>
      rw [Request.countedIn_of hc]
      rw [hc] at h
      refine ⟨?_, .same ?_⟩
      · unfold Request.Listed
        cases hallowed : d.allowed <;> exact h
      · unfold Request.countedIn Request.answeredIn Request.between
        cases hallowed : d.allowed <;> rfl
  | countDenied hc =>
      rw [Request.countedIn_of hc]
      rw [hc] at h
      exact ⟨h, .inc List.not_mem_nil rfl⟩
  | replyDenied hc =>
      rw [Request.countedIn_of hc]
      exact ⟨trivial, .same rfl⟩
  | number hc hs =>
      rw [Request.countedIn_of hc]
      rw [hc] at h
      exact ⟨h, .manager hs rfl⟩
  | register hc hs =>
      rw [Request.countedIn_of hc]
      rw [hc] at h
      exact ⟨h, .manager hs rfl⟩
  | count hc hs =>
      rw [Request.countedIn_of hc]
      rw [hc] at h
      exact ⟨h, .manager hs rfl⟩
  | launch hc hs =>
      rw [Request.countedIn_of hc]
      rw [hc] at h
      exact ⟨h, .manager hs rfl⟩
  | @wait stage hc hst =>
      obtain ⟨hoff, hcounted⟩ := hfits.returned hc
      rw [hcounted]
      have hlisted : (q.goto stage).Listed X s.guard := by
        unfold Request.Listed
        cases stage <;> first | exact hst.elim | exact hoff
      exact ⟨hlisted, .same (hlisted.returned hst).2⟩
  | @answer reply hc hr =>
      obtain ⟨hoff, hcounted⟩ := hfits.returned hc
      rw [hcounted]
      refine ⟨trivial, .same ?_⟩
      have hstatus : reply.status ≠ 429 := fun he => hr (.inr (.inr he))
      apply Request.countedIn_answered.trans
      rw [if_neg hstatus, hoff]
      rfl

/-! ## The counters -/

/-- The number of runs that have counted themselves under a name. -/
def RunManager.counted (m : RunManager X) (name : String) : Nat :=
  m.runs.countP fun t => decide (name ∈ t.ctl.countedIn)

/-- **A step of the manager** changes a counter as it changes the number of runs that have counted
    themselves. -/
theorem ManagerStep.counts {m m' : RunManager X} {a : ManagerAction} (hr : Registry m) (hs : ManagerStep m a m')
    (name : String) : m'.metrics.get name + m.counted name = m.metrics.get name + m'.counted name := by
  cases hs with
  | number => rfl
  | @register i r hi =>
      have hinsert := AList.countP_insert_new (p := fun t : Task X => decide (name ∈ t.ctl.countedIn))
        (b := .ofRun r) (hr.fresh r (List.mem_of_getElem? hi))
      exact congrArg (m.metrics.get name + ·) hinsert.symm
  | @run id a t t' hl hp hs =>
      have hinsert := AList.countP_insert_old (p := fun t => decide (name ∈ t.ctl.countedIn)) (b := t') hl
      show (m.outside id a t.ctl t'.ctl).metrics.get name + m.runs.countP _
        = m.metrics.get name + (m.runs.insert id t').countP _
      rcases outside_counts m id hs with ⟨hmetrics, hkept⟩ | ⟨name', hnew, hmetrics, hadded⟩
      · rw [hmetrics]
        simp only [hkept] at hinsert
        omega
      · rw [hmetrics, Metrics.get_inc]
        by_cases hname : name = name'
        · subst hname
          simp only [hadded, hnew, List.mem_append, List.mem_singleton, or_true, decide_true, decide_false,
            Bool.toNat_true, Bool.toNat_false] at hinsert ⊢
          omega
        · simp only [hadded, List.mem_append, List.mem_singleton, hname, or_false, decide_false,
            Bool.toNat_false] at hinsert ⊢
          omega
  | cleanup => rfl

theorem Registry.withMetrics {m : RunManager X} (h : Registry m) (metrics : Metrics) :
    Registry { m with metrics := metrics } :=
  ⟨h.starting_named, h.runs_named, h.fresh, h.nodup⟩

theorem Counting.registry {m m' : RunManager X} {before after : List String} (h : Counting m before after m')
    (hr : Registry m) : Registry m' := by
  cases h with
  | same => exact hr
  | manager hs => exact hr.step hs
  | inc => exact hr.withMetrics _

/-- Such a step changes a counter as it changes the runs and itself. -/
theorem Counting.counts {m m' : RunManager X} {before after : List String} (h : Counting m before after m')
    (hr : Registry m) (name : String) :
    m'.metrics.get name + m.counted name + (decide (name ∈ before)).toNat
      = m.metrics.get name + m'.counted name + (decide (name ∈ after)).toNat := by
  cases h with
  | same hsame => rw [hsame]
  | manager hs hsame => rw [hsame, hs.counts hr]
  | @inc name' hnew hgain =>
      show (m.metrics.inc name').get name + m.counted name + _ = m.metrics.get name + m.counted name + _
      rw [Metrics.get_inc, hgain]
      by_cases hname : name = name'
      · subst hname
        simp only [hnew, List.mem_append, List.mem_singleton, or_true, decide_true, decide_false, Bool.toNat_true,
          Bool.toNat_false]
        omega
      · simp only [List.mem_append, List.mem_singleton, hname, or_false, decide_false, Bool.toNat_false]
        omega

/-- **The invariant of the site's counters.** Each counts the runs, the requests for runs and the other
    requests that have counted themselves, and nothing else. -/
structure Exact (s : Site X M) : Prop where
  guard : s.serving.server.guard = newAbuseGuard
  registry : Registry s.serving.server.runs
  listed : ∀ q ∈ s.serving.requests, q.Listed X newAbuseGuard
  counters : ∀ name, s.serving.server.runs.metrics.get name
    = s.serving.server.runs.counted name + tally (Request.countedIn X newAbuseGuard) s.serving.requests name
      + tally OtherRequest.countedIn s.others name

/-- A step of the manager, or of nothing that counts. -/
theorem Exact.manager {s : Site X M} (h : Exact s) {server : Server X} {before : List String}
    (hguard : server.guard = s.serving.server.guard) (hruns : Counting s.serving.server.runs before before server.runs) :
    Exact { s with serving := { s.serving with server := server } } :=
  { guard := hguard.trans h.guard
    registry := hruns.registry h.registry
    listed := h.listed
    counters := fun name => by
      have hcounts := hruns.counts h.registry name
      have hname := h.counters name
      show server.runs.metrics.get name = server.runs.counted name
        + tally (Request.countedIn X newAbuseGuard) s.serving.requests name + tally OtherRequest.countedIn s.others name
      omega }

/-- A step of a request for a run. -/
theorem Exact.request {s : Site X M} (h : Exact s) {server : Server X} {i : Nat} {q q' : Request}
    (hq : s.serving.requests[i]? = some q) (hguard : server.guard = s.serving.server.guard)
    (hlisted : q'.Listed X newAbuseGuard)
    (hruns : Counting s.serving.server.runs (q.countedIn X newAbuseGuard) (q'.countedIn X newAbuseGuard) server.runs) :
    Exact { s with serving := { server := server, requests := s.serving.requests.set i q' } } :=
  { guard := hguard.trans h.guard
    registry := hruns.registry h.registry
    listed := fun u hu => by
      rcases List.mem_or_eq_of_mem_set hu with hu | rfl
      · exact h.listed u hu
      · exact hlisted
    counters := fun name => by
      have hcounts := hruns.counts h.registry name
      have hname := h.counters name
      have htally := tally_set_eq (f := Request.countedIn X newAbuseGuard) (b := q') hq name
      show server.runs.metrics.get name = server.runs.counted name
        + tally (Request.countedIn X newAbuseGuard) (s.serving.requests.set i q') name + tally OtherRequest.countedIn s.others name
      omega }

theorem Exact.serving {s s' : Site X M} {a : ServingAction} {serving : Serving X} (h : Exact s)
    (hs : ServingStep s.serving a serving) (hs' : s' = { s with serving := serving })
    (hnotVerify : ∀ now http, a ≠ .verify now http) (hnotInc : ∀ name, a ≠ .inc name) : Exact s' := by
  subst hs'
  cases hs with
  | receive =>
      refine { guard := h.guard, registry := h.registry, listed := fun u hu => ?_, counters := fun name => ?_ }
      · rcases List.mem_append.mp hu with hu | hu
        · exact h.listed u hu
        · rw [List.mem_singleton.mp hu]
          exact trivial
      · show _ = _ + tally _ (s.serving.requests ++ [_]) name + _
        rw [tally_concat rfl]
        exact h.counters name
  | @handle i now q q' server hq hs =>
      have hlisted := h.listed q (List.mem_of_getElem? hq)
      rw [← h.guard] at hlisted
      obtain ⟨hlisted', hcounting⟩ := hs.counting hlisted
      rw [h.guard] at hlisted' hcounting
      exact h.request hq hs.guard_eq hlisted' hcounting
  | @leave i q hq hc =>
      have hcounted := ((h.listed q (List.mem_of_getElem? hq)).returned hc).2
      have hleft : (q.goto .left).countedIn X newAbuseGuard = [] := rfl
      exact h.request hq rfl trivial (.same (hleft.trans hcounted.symm))
  | run hs => exact h.manager rfl (.manager hs (rfl : ([] : List String) = []))
  | cleanup hs => exact h.manager rfl (.manager hs (rfl : ([] : List String) = []))
  | verify hd => exact absurd rfl (hnotVerify _ _)
  | inc hn => exact absurd rfl (hnotInc _)

theorem Exact.other {s : Site X M} (h : Exact s) {i : Nat} {o o' : OtherRequest X M} {server : Server X}
    {events : List M.Event} (ho : s.others[i]? = some o)
    (hs : OtherStep s.serving.server s.events o server events o') :
    Exact { s with
      serving := { s.serving with server := server }, events := events, others := s.others.set i o' } := by
  cases hs with
  | quiet hcounted hkept =>
      refine { guard := h.guard, registry := h.registry, listed := h.listed, counters := fun name => ?_ }
      show _ = _ + _ + tally _ (s.others.set i o') name
      rw [tally_set_same ho hcounted]
      exact h.counters name
  | @count name' _ hnew hcounted hkept =>
      refine { guard := h.guard, registry := h.registry.withMetrics _, listed := h.listed,
               counters := fun name => ?_ }
      show (s.serving.server.runs.metrics.inc name').get name = s.serving.server.runs.counted name
        + tally (Request.countedIn X newAbuseGuard) s.serving.requests name + tally OtherRequest.countedIn (s.others.set i o') name
      rw [Metrics.get_inc, tally_set_gain ho hnew hcounted, h.counters name]
      omega
  | store hcounted hnone hkept =>
      refine { guard := h.guard, registry := h.registry, listed := h.listed, counters := fun name => ?_ }
      show _ = _ + _ + tally _ (s.others.set i o') name
      rw [tally_set_same ho hcounted]
      exact h.counters name

/-- What a step of the site is. -/
theorem site_step {D : UploadCodec X} {s s' : Site X M} {a : SiteAction} (h : s.step D a = some s') :
    (∃ b serving, ServingStep s.serving b serving ∧ (∀ now http, b ≠ .verify now http) ∧ (∀ name, b ≠ .inc name) ∧
        s' = { s with serving := serving }) ∨
      (∃ endpoint, s' = { s with others := s.others ++ [.new endpoint] }) ∨
      ∃ i now o server events o', s.others[i]? = some o ∧
        o.step D s.startedAt s.serving.server s.events now = some (server, events, o') ∧
        s' = { s with
          serving := { s.serving with server := server }, events := events, others := s.others.set i o' } := by
  cases a with
  | serving b =>
      unfold Site.step at h
      dsimp only at h
      split at h
      · cases h
      · cases h
      · rename_i hverify hinc
        obtain ⟨serving, hs, rfl⟩ := Option.map_eq_some_iff.mp h
        exact .inl ⟨b, serving, serving_step hs, fun now http he => hverify now http he, fun name he => hinc name he, rfl⟩
  | receive endpoint =>
      cases h
      exact .inr (.inl ⟨endpoint, rfl⟩)
  | handle i now =>
      rw [Site.step] at h
      split at h
      · cases h
      · rename_i o ho
        obtain ⟨⟨server, events, o'⟩, hs, rfl⟩ := Option.map_eq_some_iff.mp h
        exact .inr (.inr ⟨i, now, o, server, events, o', ho, hs, rfl⟩)

theorem countedIn_new (endpoint : OtherEndpoint) : (OtherRequest.new endpoint : OtherRequest X M).countedIn = [] := by
  cases endpoint <;> rfl

theorem Exact.step {D : UploadCodec X} {s s' : Site X M} {a : SiteAction} (h : Exact s)
    (hs : s.step D a = some s') : Exact s' := by
  rcases site_step hs with ⟨b, serving, hb, hverify, hinc, heq⟩ | ⟨endpoint, rfl⟩ |
    ⟨i, now, o, server, events, o', ho, hother, rfl⟩
  · exact h.serving hb heq hverify hinc
  · refine { guard := h.guard, registry := h.registry, listed := h.listed, counters := fun name => ?_ }
    show _ = _ + _ + tally _ (s.others ++ [_]) name
    rw [tally_concat (countedIn_new endpoint)]
    exact h.counters name
  · exact h.other ho (other_step hother)

/-! ## What the counters show -/

/-- The status a request for a run was answered with. -/
def Request.status (q : Request) : Option Nat :=
  match q.stage with
  | .answered reply => some reply.status
  | _ => none

/-- A verification that was answered 429. -/
def OtherRequest.denied : OtherRequest X M → Bool
  | .verify _ (.answered (.error (429, _))) => true
  | _ => false

/-- A verification that was answered with a verdict. -/
def OtherRequest.verified : OtherRequest X M → Bool
  | .verify _ (.answered (.ok _)) => true
  | _ => false

/-- A receipt that has been shown. -/
def OtherRequest.viewed : OtherRequest X M → Bool
  | .getReceipt _ (.answered (.ok _)) => true
  | _ => false

/-- An event that was answered 400 as sensitive. -/
def OtherRequest.barred : OtherRequest X M → Bool
  | .postEvent _ (.barred _) => true
  | _ => false

/-- An event that was answered 202. -/
def OtherRequest.taken : OtherRequest X M → Bool
  | .postEvent _ (.taken _) => true
  | _ => false

/-- The runs count themselves in counters of their own. -/
theorem counted_other (m : RunManager X) {name : String}
    (h : name ∉ [metricRunsStarted, metricRunsCompleted, metricRunsFailed]) : m.counted name = 0 := by
  have hnone : ∀ ctl : Ctl X, name ∉ ctl.countedIn := by
    intro ctl hmem
    apply h
    unfold Ctl.countedIn at hmem
    split at hmem <;> simp_all
  unfold RunManager.counted AList.countP
  exact List.countP_eq_zero.mpr fun e _ => by simp [hnone]

theorem Request.answeredIn_cases (guard : AbuseGuard) (q : Request) :
    (q.answeredIn X guard = [metricRateLimited] ∧ q.status = some 429) ∨
      (q.answeredIn X guard = [metricAbuseRejections] ∧
        ∃ status, q.status = some status ∧ status ≠ 429 ∧ offList X guard q.http.body = true) ∨
      (q.answeredIn X guard = [] ∧ q.status ≠ some 429 ∧
        (q.status = none ∨ offList X guard q.http.body = false)) := by
  unfold Request.answeredIn Request.status
  split
  · rename_i reply _
    split
    · rename_i hstatus
      exact .inl ⟨rfl, congrArg some hstatus⟩
    · rename_i hstatus
      cases hoff : offList X guard q.http.body with
      | true => exact .inr (.inl ⟨rfl, reply.status, rfl, hstatus, rfl⟩)
      | false => exact .inr (.inr ⟨rfl, fun he => hstatus (Option.some.inj he), .inr rfl⟩)
  · exact .inr (.inr ⟨rfl, nofun, .inl rfl⟩)

theorem Request.mem_rateLimited {guard : AbuseGuard} {q : Request} :
    metricRateLimited ∈ q.answeredIn X guard ↔ q.status = some 429 := by
  have hne : metricRateLimited ≠ metricAbuseRejections := by decide
  rcases q.answeredIn_cases (X := X) guard with ⟨hc, hs⟩ | ⟨hc, status, hs, hstatus, _⟩ | ⟨hc, hs, _⟩ <;>
    simp_all

/-- A request for a run that was answered for a flow off the allowlist. -/
def Request.Barred (X : Externals) (guard : AbuseGuard) (q : Request) : Prop :=
  q.status ≠ none ∧ q.status ≠ some 429 ∧ offList X guard q.http.body = true

instance (guard : AbuseGuard) (q : Request) : Decidable (q.Barred X guard) :=
  inferInstanceAs (Decidable (_ ∧ _ ∧ _))

theorem Request.mem_abuseRejections {guard : AbuseGuard} {q : Request} :
    metricAbuseRejections ∈ q.answeredIn X guard ↔ q.Barred X guard := by
  have hne : metricAbuseRejections ≠ metricRateLimited := by decide
  unfold Barred
  rcases q.answeredIn_cases (X := X) guard with ⟨hc, hs⟩ | ⟨hc, status, hs, hstatus, _⟩ | ⟨hc, hs, hor⟩
  · simp_all
  · simp_all
  · rcases hor with hor | hor <;> simp_all

/-- A request for a run has been counted before its answer or with it. -/
theorem Request.once (guard : AbuseGuard) (q : Request) : q.answeredIn X guard = [] ∨ q.between.toList = [] := by
  unfold answeredIn between
  cases q.stage <;> first | exact .inl rfl | exact .inr rfl

theorem Request.not_mem_other {guard : AbuseGuard} {q : Request} {name : String}
    (h : name ∉ [metricRateLimited, metricAbuseRejections]) : name ∉ q.countedIn X guard := by
  intro hmem
  apply h
  rcases List.mem_append.mp hmem with hmem | hmem
  · rcases q.answeredIn_cases (X := X) guard with ⟨hc, _⟩ | ⟨hc, _⟩ | ⟨hc, _⟩ <;> rw [hc] at hmem <;> simp_all
  · rw [Option.mem_toList] at hmem
    unfold between at hmem
    split at hmem <;> cases hmem <;> simp

/-- What counter the answer of another request belongs in. -/
theorem OtherRequest.mem_answeredIn {o : OtherRequest X M} {name : String} :
    name ∈ o.answeredIn ↔ o.denied = true ∧ name = metricRateLimited ∨ o.verified = true ∧ name = metricVerifications ∨
      o.viewed = true ∧ name = metricReceiptViews ∨ o.barred = true ∧ name = metricAbuseRejections ∨
      o.taken = true ∧ name = metricEventsReceived := by
  unfold OtherRequest.answeredIn
  split
  · simp [denied, verified, viewed, barred, taken]
  · simp [denied, verified, viewed, barred, taken]
  · simp [denied, verified, viewed, barred, taken]
  · simp [denied, verified, viewed, barred, taken]
  · simp [denied, verified, viewed, barred, taken]
  · rename_i h1 h2 h3 h4 h5
    have hdenied : o.denied = false := by unfold OtherRequest.denied; split <;> simp_all
    have hverified : o.verified = false := by unfold OtherRequest.verified; split <;> simp_all
    have hviewed : o.viewed = false := by unfold OtherRequest.viewed; split <;> simp_all
    have hbarred : o.barred = false := by unfold OtherRequest.barred; split <;> simp_all
    have htaken : o.taken = false := by unfold OtherRequest.taken; split <;> simp_all
    simp [hdenied, hverified, hviewed, hbarred, htaken]

theorem OtherRequest.mem_rateLimited (o : OtherRequest X M) : metricRateLimited ∈ o.answeredIn ↔ o.denied = true := by
  simp [mem_answeredIn, metricRateLimited, metricVerifications, metricReceiptViews, metricAbuseRejections,
    metricEventsReceived]

theorem OtherRequest.mem_verifications (o : OtherRequest X M) : metricVerifications ∈ o.answeredIn ↔ o.verified = true := by
  simp [mem_answeredIn, metricRateLimited, metricVerifications, metricReceiptViews, metricAbuseRejections,
    metricEventsReceived]

theorem OtherRequest.mem_receiptViews (o : OtherRequest X M) : metricReceiptViews ∈ o.answeredIn ↔ o.viewed = true := by
  simp [mem_answeredIn, metricRateLimited, metricVerifications, metricReceiptViews, metricAbuseRejections,
    metricEventsReceived]

theorem OtherRequest.mem_abuseRejections (o : OtherRequest X M) : metricAbuseRejections ∈ o.answeredIn ↔ o.barred = true := by
  simp [mem_answeredIn, metricRateLimited, metricVerifications, metricReceiptViews, metricAbuseRejections,
    metricEventsReceived]

theorem OtherRequest.mem_eventsReceived (o : OtherRequest X M) : metricEventsReceived ∈ o.answeredIn ↔ o.taken = true := by
  simp [mem_answeredIn, metricRateLimited, metricVerifications, metricReceiptViews, metricAbuseRejections,
    metricEventsReceived]

/-- Another request has been counted before its answer or with it. -/
theorem OtherRequest.once (o : OtherRequest X M) : o.answeredIn = [] ∨ o.between.toList = [] := by
  unfold answeredIn
  split
  · exact .inr rfl
  · exact .inr rfl
  · exact .inr rfl
  · exact .inr rfl
  · exact .inr rfl
  · exact .inl rfl

/-- The counters of the other requests. -/
theorem OtherRequest.mem_counters {o : OtherRequest X M} {name : String} (h : name ∈ o.countedIn) :
    name ∈ [metricRateLimited, metricAbuseRejections, metricVerifications, metricReceiptViews,
      metricEventsReceived] := by
  rcases List.mem_append.mp h with h | h
  · rw [mem_answeredIn] at h
    rcases h with ⟨_, rfl⟩ | ⟨_, rfl⟩ | ⟨_, rfl⟩ | ⟨_, rfl⟩ | ⟨_, rfl⟩ <;> simp
  · rw [Option.mem_toList] at h
    unfold between at h
    split at h <;> cases h <;> simp

theorem exact_exec {D : UploadCodec X} {C : RunCodec X} {os : Disk} {cfg : Config}
    {files : FilePath.Files C.Data} {server : Server X} (hopen : newServer C os cfg files = .ok server)
    (startedAt : Time) {as : List SiteAction} {s : Site X M}
    (h : exec (Site.step D) (Site.new M startedAt server) as = some s) : Exact s := by
  refine exec_invariant (fun _ _ _ h hs => h.step hs) as ?_ h
  unfold newServer at hopen
  split at hopen
  · cases hopen
  · cases hopen
    exact { guard := rfl, registry := registry_new _ _, listed := nofun, counters := fun _ => rfl }

/-- The value of a counter. -/
def Site.counter (s : Site X M) (name : String) : Nat := s.serving.server.runs.metrics.get name

/-- How many requests have been counted under a name ahead of their answer. -/
def Site.between (s : Site X M) (name : String) : Nat :=
  (s.serving.requests.countP fun q => decide (q.between = some name))
    + s.others.countP fun o => decide (o.between = some name)

/-- A counter against the answers: those given, and those that are about to be. -/
theorem Exact.answers {s : Site X M} (h : Exact s) {name : String}
    (hruns : name ∉ [metricRunsStarted, metricRunsCompleted, metricRunsFailed]) :
    s.counter name = tally (Request.answeredIn X newAbuseGuard) s.serving.requests name
      + tally OtherRequest.answeredIn s.others name + s.between name := by
  have hrequests : tally (Request.countedIn X newAbuseGuard) s.serving.requests name
      = tally (Request.answeredIn X newAbuseGuard) s.serving.requests name
        + s.serving.requests.countP fun q => decide (q.between = some name) :=
    (tally_append (fun _ => rfl) (Request.once newAbuseGuard) _ name).trans
      (congrArg _ (tally_eq_countP fun q => by rw [Option.mem_toList, decide_eq_true_eq]))
  have hothers : tally OtherRequest.countedIn s.others name = tally OtherRequest.answeredIn s.others name
      + s.others.countP fun o => decide (o.between = some name) :=
    (tally_append (fun _ => rfl) OtherRequest.once _ name).trans
      (congrArg _ (tally_eq_countP fun o => by rw [Option.mem_toList, decide_eq_true_eq]))
  rw [Site.counter, h.counters, counted_other _ hruns, hrequests, hothers, Site.between]
  omega

/-- What neither a run nor a request for one is counted in, the other requests are. -/
theorem Exact.others {s : Site X M} (h : Exact s) {name : String}
    (hruns : name ∉ [metricRunsStarted, metricRunsCompleted, metricRunsFailed])
    (hrequests : name ∉ [metricRateLimited, metricAbuseRejections]) :
    s.counter name = tally OtherRequest.countedIn s.others name := by
  rw [Site.counter, h.counters, counted_other _ hruns, tally_eq_zero fun q => q.not_mem_other hrequests]
  exact (congrArg (· + _) (Nat.zero_add 0)).trans (Nat.zero_add _)

/-- The counters of a view are those it was taken of. -/
theorem lookup_view (m : Metrics) (uptime : Time) {name : String} (h : name ≠ "uptime_seconds") :
    ((m.view uptime).lookup name).getD 0 = m.get name := by
  rw [Metrics.view, AList.lookup_insert_ne h, Metrics.get]
  cases hl : m.lookup name with
  | none =>
      rw [AList.lookup_insertAll_of_not m.entries ∅ ?_]
      · rfl
      · rintro ⟨name', n⟩ hc b hb
        cases hb
        rw [AList.mem_lookup_iff.mpr hc] at hl
        cases hl
  | some n =>
      rw [AList.lookup_insertAll_of_mem m.entries ∅ ⟨⟨name, n⟩, AList.mem_lookup_iff.mp hl, rfl⟩]
      · rfl
      · rintro ⟨name', n'⟩ hc b hb
        cases hb
        have hl' := AList.mem_lookup_iff.mpr hc
        rw [hl] at hl'
        exact congrArg Nat.cast (Option.some.inj hl').symm

/-- What an answer of `/metrics` says about the state of the server it was taken of. -/
def Site.Shows (s : Site X M) (view : MetricsView) : Prop :=
  ∀ name ≠ "uptime_seconds", (view.lookup name).getD 0 = s.counter name

/-- **The answers of `/metrics`**: one step answers one request, with the counters as they stand. -/
theorem seen_step {D : UploadCodec X} {s s' : Site X M} {a : SiteAction} (h : s.step D a = some s')
    (view : MetricsView) (hseen : .metrics (some view) ∈ s'.others) :
    .metrics (some view) ∈ s.others ∨ s.Shows view := by
  rcases site_step h with ⟨b, serving, hb, _, _, rfl⟩ | ⟨endpoint, rfl⟩ |
    ⟨i, now, o, server, events, o', ho, hother, rfl⟩
  · exact .inl hseen
  · rcases List.mem_append.mp hseen with hseen | hseen
    · exact .inl hseen
    · rw [List.mem_singleton] at hseen
      cases endpoint <;> cases hseen
  · rcases List.mem_or_eq_of_mem_set hseen with hseen | rfl
    · exact .inl hseen
    · right
      cases o with
      | metrics reply =>
          cases reply with
          | none => cases hother; exact fun name hname => lookup_view _ _ hname
          | some view' => cases hother
      | verify http stage =>
          cases stage with
          | allowed => rw [OtherRequest.step] at hother; split at hother <;> cases hother
          | _ => cases hother
      | getReceipt id stage =>
          cases stage with
          | received => rw [OtherRequest.step] at hother; split at hother <;> cases hother
          | _ => cases hother
      | getBundle id reply => cases reply <;> cases hother
      | postEvent body stage => cases stage <;> cases hother
      | eventsSummary reply => cases reply <;> cases hother

/-- **The counters of `/metrics`.** In every state of the server, however its requests, its runs and its
    cleanup job interleave, a counter is the number of the answers that belong in it and of the requests that
    have counted themselves ahead of their answer: `rate_limited` of the 429 of the run endpoints and of the
    verifier, `abuse_rejections` of the runs refused for a flow off the allowlist and of the sensitive events,
    and so on; the run counters count the runs; there is no other counter. An answer of `/metrics` shows all
    counters as they were together at one moment. -/
theorem counters_exact {D : UploadCodec X} {C : RunCodec X} {os : Disk} {cfg : Config}
    {files : FilePath.Files C.Data} {server : Server X} (hopen : newServer C os cfg files = .ok server)
    (startedAt : Time) {as : List SiteAction} {s : Site X M}
    (h : exec (Site.step D) (Site.new M startedAt server) as = some s) :
    s.counter metricRateLimited
        = (s.serving.requests.countP fun q => decide (q.status = some 429)) + s.others.countP OtherRequest.denied
          + s.between metricRateLimited ∧
      s.counter metricAbuseRejections
        = (s.serving.requests.countP fun q => decide (q.Barred X newAbuseGuard))
          + s.others.countP OtherRequest.barred + s.between metricAbuseRejections ∧
      s.counter metricVerifications = s.others.countP OtherRequest.verified + s.between metricVerifications ∧
      s.counter metricReceiptViews = s.others.countP OtherRequest.viewed + s.between metricReceiptViews ∧
      s.counter metricEventsReceived = s.others.countP OtherRequest.taken + s.between metricEventsReceived ∧
      (∀ name ∈ [metricRunsStarted, metricRunsCompleted, metricRunsFailed],
        s.counter name = s.serving.server.runs.counted name) ∧
      (∀ name ∉ [metricRunsStarted, metricRunsCompleted, metricRunsFailed, metricRateLimited,
        metricAbuseRejections, metricVerifications, metricReceiptViews, metricEventsReceived],
        s.counter name = 0) ∧
      ∀ view, .metrics (some view) ∈ s.others → ∃ bs cs s₀, as = bs ++ cs ∧
        exec (Site.step D) (Site.new M startedAt server) bs = some s₀ ∧ s₀.Shows view := by
  have hexact := exact_exec hopen startedAt h
  have hlimited : tally (Request.answeredIn X newAbuseGuard) s.serving.requests metricRateLimited
      = s.serving.requests.countP fun q => decide (q.status = some 429) :=
    tally_eq_countP fun q => by rw [decide_eq_true_eq]; exact Request.mem_rateLimited
  have hbarred : tally (Request.answeredIn X newAbuseGuard) s.serving.requests metricAbuseRejections
      = s.serving.requests.countP fun q => decide (q.Barred X newAbuseGuard) :=
    tally_eq_countP fun q => by rw [decide_eq_true_eq]; exact Request.mem_abuseRejections
  have hothers : ∀ {name : String}, name ∉ [metricRateLimited, metricAbuseRejections] →
      tally (Request.answeredIn X newAbuseGuard) s.serving.requests name = 0 := fun hname =>
    tally_eq_zero fun q hmem => q.not_mem_other hname (List.mem_append_left _ hmem)
  refine ⟨?_, ?_, ?_, ?_, ?_, fun name hname => ?_, fun name hname => ?_, fun view hseen => ?_⟩
  · rw [hexact.answers (by decide), hlimited, tally_eq_countP OtherRequest.mem_rateLimited]
  · rw [hexact.answers (by decide), hbarred, tally_eq_countP OtherRequest.mem_abuseRejections]
  · rw [hexact.answers (by decide), hothers (by decide), Nat.zero_add,
      tally_eq_countP OtherRequest.mem_verifications]
  · rw [hexact.answers (by decide), hothers (by decide), Nat.zero_add,
      tally_eq_countP OtherRequest.mem_receiptViews]
  · rw [hexact.answers (by decide), hothers (by decide), Nat.zero_add,
      tally_eq_countP OtherRequest.mem_eventsReceived]
  · -- the requests count themselves in other counters than the runs
    have hnot : name ∉ [metricRateLimited, metricAbuseRejections, metricVerifications, metricReceiptViews,
        metricEventsReceived] := by
      simp only [List.mem_cons, List.not_mem_nil, or_false] at hname
      rcases hname with rfl | rfl | rfl <;> decide
    rw [Site.counter, hexact.counters, tally_eq_zero fun q => q.not_mem_other (by simp_all),
      tally_eq_zero fun o hmem => hnot (OtherRequest.mem_counters hmem)]
    rfl
  · simp only [List.mem_cons, List.not_mem_nil, or_false, not_or] at hname
    rw [hexact.others (by simp_all) (by simp_all)]
    refine tally_eq_zero fun o hmem => ?_
    have hcounters := OtherRequest.mem_counters hmem
    simp_all
  · refine (exec_observed (fun _ _ _ => seen_step) h hseen).resolve_left ?_
    apply List.not_mem_nil

/-- A module that computes: an event is its bytes, a zero in it is sensitive, and only the first is kept. -/
def sampleOnboarding : Onboarding where
  Event := GoText.Bytes
  source := fun _ => "hosted"
  sourceNexus := "nexus"
  sourceCinema := "cinema"
  sourceHosted := "hosted"
  decode := fun body => if body.isEmpty then .error "EOF" else .ok body
  validate := fun _ => none
  sensitiveField := fun e => if 0 ∈ e then some "accountUrl" else none
  redact := List.take 1
  Summary := Nat
  summarize := List.length

/-- No upload decodes. -/
def noUploads : UploadCodec sampleX := { decodePackage := fun _ => none, indentField := id }

/-- The counters a request was answered with. -/
def OtherRequest.view : OtherRequest X M → Option MetricsView
  | .metrics reply => reply
  | _ => none

/-- Two events, one of them sensitive, and a request for a run without a body; the metrics are asked for
    between the count of the sensitive event and its answer. -/
def sampleSiteActions : List SiteAction :=
  [.receive (.postEvent [1, 2]), .receive (.postEvent [0]), .handle 0 1, .handle 1 1, .handle 0 2, .handle 1 2,
    .receive .metrics, .handle 2 3, .serving (.receive .createRun ⟨[], "", "192.0.2.1:40000"⟩), .handle 1 3,
    .serving (.handle 0 3), .handle 0 4, .handle 0 4, .receive .eventsSummary, .handle 3 5]

theorem exec_sampleSiteActions : ∃ server s view,
    newServer (sampleCodec sampleX) .ok defaultConfig ∅ = .ok server ∧
      exec (Site.step noUploads) (Site.new sampleOnboarding 0 server) sampleSiteActions = some s ∧
      s.events = [[1]] ∧ s.others.countP OtherRequest.barred = 1 ∧ s.between metricAbuseRejections = 0 ∧
      (s.serving.requests.countP fun q => decide (q.Barred sampleX newAbuseGuard)) = 0 ∧
      .metrics (some view) ∈ s.others := by
  obtain ⟨server, hopen⟩ : ∃ server, newServer (sampleCodec sampleX) .ok defaultConfig ∅ = .ok server :=
    ⟨_, rfl⟩
  have hrun : ((newServer (sampleCodec sampleX) .ok defaultConfig ∅).toOption.bind fun server =>
      (exec (Site.step noUploads) (Site.new sampleOnboarding 0 server) sampleSiteActions).map fun s =>
        ((s.events : List GoText.Bytes), s.others.countP OtherRequest.barred, s.between metricAbuseRejections,
          (s.serving.requests.countP fun q => decide (q.Barred sampleX newAbuseGuard)),
          s.others.countP fun o => o.view.isSome))
      = some ([[1]], 1, 0, 0, 1) := by decide +kernel
  rw [hopen, Except.toOption, Option.bind_some] at hrun
  obtain ⟨s, hs, heq⟩ := Option.map_eq_some_iff.mp hrun
  obtain ⟨hevents, hrest⟩ := Prod.mk.inj heq
  obtain ⟨hbarred, hrest⟩ := Prod.mk.inj hrest
  obtain ⟨hbetween, hrest⟩ := Prod.mk.inj hrest
  obtain ⟨hrequests, hviews⟩ := Prod.mk.inj hrest
  obtain ⟨o, ho, hview⟩ := List.countP_pos_iff.mp (Nat.lt_of_lt_of_eq Nat.one_pos hviews.symm)
  obtain ⟨view, rfl⟩ : ∃ view, o = .metrics (some view) := by
    unfold OtherRequest.view at hview
    split at hview
    · obtain ⟨view, rfl⟩ := Option.isSome_iff_exists.mp hview
      exact ⟨view, rfl⟩
    · cases hview
  exact ⟨server, s, view, hopen, hs, hevents, hbarred, hbetween, hrequests, ho⟩

/-- One of the events is rejected for abuse, and the request for a run is not; the answer of `/metrics` is the
    counters of a moment. -/
theorem counters_exact_sample : ∃ server s view,
    newServer (sampleCodec sampleX) .ok defaultConfig ∅ = .ok server ∧
      exec (Site.step noUploads) (Site.new sampleOnboarding 0 server) sampleSiteActions = some s ∧
      s.counter metricAbuseRejections = 1 ∧ s.counter "uptime_seconds" = 0 ∧
      .metrics (some view) ∈ s.others ∧ ∃ bs cs s₀, sampleSiteActions = bs ++ cs ∧
        exec (Site.step noUploads) (Site.new sampleOnboarding 0 server) bs = some s₀ ∧ s₀.Shows view := by
  obtain ⟨server, s, view, hopen, hs, _, hbarred, hbetween, hrequests, hview⟩ := exec_sampleSiteActions
  obtain ⟨_, habuse, _, _, _, _, hnone, hviews⟩ := counters_exact hopen 0 hs
  rw [hbarred, hrequests, hbetween] at habuse
  exact ⟨server, s, view, hopen, hs, habuse, hnone "uptime_seconds" (by decide), hview, hviews view hview⟩

/-! ## The events -/

/-- An event that passes the checks: it is well formed, comes from one of the browser surfaces, and carries
    nothing sensitive. -/
structure Cleared (M : Onboarding) (body : GoText.Bytes) (e : M.Event) : Prop where
  decoded : M.decode body = .ok e
  source : M.source e = M.sourceNexus ∨ M.source e = M.sourceCinema ∨ M.source e = M.sourceHosted
  valid : M.validate e = none
  redacted : M.sensitiveField e = none

theorem checkEvent_accepted {body : GoText.Bytes} {e : M.Event} (h : checkEvent M body = .accepted e) :
    Cleared M body e := by
  unfold checkEvent at h
  split at h
  · cases h
  · rename_i hdecode
    split at h
    · cases h
    · rename_i hsource
      split at h
      · cases h
      · rename_i hvalid
        split at h
        · cases h
        · rename_i hsensitive
          cases h
          refine { decoded := hdecode, source := ?_, valid := hvalid, redacted := hsensitive }
          by_contra hnot
          rw [not_or, not_or] at hnot
          exact hsource ⟨hnot.1, hnot.2.1, hnot.2.2⟩

/-- The checks store nothing. -/
theorem checkEvent_open (body : GoText.Bytes) (e : M.Event) :
    checkEvent M body ≠ .stored e ∧ checkEvent M body ≠ .counted e ∧ checkEvent M body ≠ .taken e := by
  unfold checkEvent
  split
  · exact ⟨nofun, nofun, nofun⟩
  · split
    · exact ⟨nofun, nofun, nofun⟩
    · split
      · exact ⟨nofun, nofun, nofun⟩
      · split <;> exact ⟨nofun, nofun, nofun⟩

/-- What a request's point says about the events and the counters. -/
def OtherRequest.Fits (s : Site X M) : OtherRequest X M → Prop
  | .postEvent body (.accepted e) => checkEvent M body = .accepted e
  | .postEvent body (.stored e) => checkEvent M body = .accepted e
  | .postEvent body (.counted e) => checkEvent M body = .accepted e
  | .postEvent body (.taken e) => checkEvent M body = .accepted e
  | .eventsSummary (some summary) => ∃ n ≤ s.events.length, summary = M.summarize (s.events.take n)
  | .metrics (some view) => ∀ name ≠ "uptime_seconds", (view.lookup name).getD 0 ≤ s.counter name
  | _ => True

theorem OtherRequest.Fits.mono {s s' : Site X M} {o : OtherRequest X M} (h : o.Fits s) (hevents : s.events <+: s'.events)
    (hcounters : ∀ name, s.counter name ≤ s'.counter name) : o.Fits s' := by
  cases o with
  | eventsSummary reply =>
      cases reply with
      | none => exact trivial
      | some summary =>
          obtain ⟨n, hn, hsummary⟩ := h
          refine ⟨n, Nat.le_trans hn hevents.length_le, ?_⟩
          obtain ⟨more, hmore⟩ := hevents
          rw [hsummary, ← hmore, List.take_append_of_le_length hn]
  | metrics reply =>
      cases reply with
      | none => exact trivial
      | some view => exact fun name hname => Int.le_trans (h name hname) (Int.ofNat_le.mpr (hcounters name))
  | postEvent body stage => cases stage <;> exact h
  | _ => exact trivial

theorem Metrics.le_inc (name name' : String) (m : Metrics) : m.get name ≤ (m.inc name').get name := by
  rw [Metrics.get_inc]
  exact Nat.le_add_right ..

/-- **No step takes anything off a counter.** -/
theorem ManagerStep.metrics_mono {m m' : RunManager X} {a : ManagerAction} (hs : ManagerStep m a m') (name : String) :
    m.metrics.get name ≤ m'.metrics.get name := by
  cases hs with
  | number => exact Nat.le_refl _
  | register => exact Nat.le_refl _
  | @run id a t t' hl hp hs =>
      show m.metrics.get name ≤ (m.outside id a t.ctl t'.ctl).metrics.get name
      rcases outside_counts m id hs with ⟨hmetrics, _⟩ | ⟨name', _, hmetrics, _⟩ <;> rw [hmetrics]
      exact Metrics.le_inc ..
  | cleanup => exact Nat.le_refl _

theorem HandleStep.metrics_mono {s s' : Server X} {q q' : Request} {now : Time} (hs : HandleStep s q now s' q')
    (name : String) : s.runs.metrics.get name ≤ s'.runs.metrics.get name := by
  cases hs with
  | countRefused => exact Metrics.le_inc ..
  | countDenied => exact Metrics.le_inc ..
  | number _ hs => exact hs.metrics_mono name
  | register _ hs => exact hs.metrics_mono name
  | count _ hs => exact hs.metrics_mono name
  | launch _ hs => exact hs.metrics_mono name
  | _ => exact Nat.le_refl _

theorem ServingStep.metrics_mono {s s' : Serving X} {a : ServingAction} (hs : ServingStep s a s') (name : String) :
    s.server.runs.metrics.get name ≤ s'.server.runs.metrics.get name := by
  cases hs with
  | handle _ hs => exact hs.metrics_mono name
  | run hs => exact hs.metrics_mono name
  | cleanup hs => exact hs.metrics_mono name
  | inc => exact Metrics.le_inc ..
  | _ => exact Nat.le_refl _

/-- The site after a step of another request. -/
def Site.after (s : Site X M) (i : Nat) (server : Server X) (events : List M.Event) (o : OtherRequest X M) : Site X M :=
  { s with serving := { s.serving with server := server }, events := events, others := s.others.set i o }

theorem OtherStep.grows {s : Site X M} {server : Server X} {events : List M.Event} {o o' : OtherRequest X M}
    (hs : OtherStep s.serving.server s.events o server events o') (i : Nat) (u : OtherRequest X M) :
    s.events <+: (s.after i server events u).events ∧ ∀ name, s.counter name ≤ (s.after i server events u).counter name := by
  cases hs with
  | quiet => exact ⟨List.prefix_refl _, fun name => Nat.le_refl _⟩
  | count => exact ⟨List.prefix_refl _, fun name => Metrics.le_inc ..⟩
  | store => exact ⟨List.prefix_append .., fun name => Nat.le_refl _⟩

/-- **A step keeps a request within its point.** -/
theorem OtherRequest.Fits.step {D : UploadCodec X} {s : Site X M} {now : Time} {server : Server X}
    {events : List M.Event} {o o' : OtherRequest X M} (h : o.Fits s)
    (hs : o.step D s.startedAt s.serving.server s.events now = some (server, events, o')) (i : Nat) :
    o'.Fits (s.after i server events o') := by
  cases o with
  | verify http stage =>
      obtain ⟨stage', rfl⟩ : ∃ stage', o' = .verify http stage' := by
        cases stage with
        | allowed =>
            rw [OtherRequest.step] at hs
            split at hs <;> cases hs <;> exact ⟨_, rfl⟩
        | answered reply => cases hs
        | _ => cases hs; exact ⟨_, rfl⟩
      exact trivial
  | getReceipt id stage =>
      obtain ⟨stage', rfl⟩ : ∃ stage', o' = .getReceipt id stage' := by
        cases stage with
        | received =>
            rw [OtherRequest.step] at hs
            split at hs <;> cases hs <;> exact ⟨_, rfl⟩
        | found run => cases hs; exact ⟨_, rfl⟩
        | counted run => cases hs; exact ⟨_, rfl⟩
        | answered reply => cases hs
      exact trivial
  | getBundle id reply =>
      cases reply with
      | none => cases hs; exact trivial
      | some reply => cases hs
  | postEvent body stage =>
      cases stage with
      | received =>
          cases hs
          unfold OtherRequest.Fits
          cases hcheck : checkEvent M body with
          | accepted e => exact hcheck
          | stored e => exact absurd hcheck (checkEvent_open body e).1
          | counted e => exact absurd hcheck (checkEvent_open body e).2.1
          | taken e => exact absurd hcheck (checkEvent_open body e).2.2
          | _ => exact trivial
      | sensitive field => cases hs; exact trivial
      | barring field => cases hs; exact trivial
      | accepted e => cases hs; exact h
      | stored e => cases hs; exact h
      | counted e => cases hs; exact h
      | barred field => cases hs
      | rejected message => cases hs
      | taken e => cases hs
  | eventsSummary reply =>
      cases reply with
      | none =>
          cases hs
          exact ⟨s.events.length, Nat.le_refl _, congrArg M.summarize List.take_length.symm⟩
      | some summary => cases hs
  | metrics reply =>
      cases reply with
      | none =>
          cases hs
          exact fun name hname => by rw [lookup_view _ _ hname]; exact Int.le_refl _
      | some view => cases hs

/-- **The invariant of the events.** They are what the requests that have stored theirs have left, one each. -/
structure Kept (s : Site X M) : Prop where
  fits : ∀ o ∈ s.others, o.Fits s
  events : s.events.Perm (s.others.filterMap OtherRequest.kept)

theorem kept_new (endpoint : OtherEndpoint) : (OtherRequest.new endpoint : OtherRequest X M).kept = none := by
  cases endpoint <;> rfl

theorem Kept.step {D : UploadCodec X} {s s' : Site X M} {a : SiteAction} (h : Kept s)
    (hs : s.step D a = some s') : Kept s' := by
  rcases site_step hs with ⟨b, serving, hb, _, _, rfl⟩ | ⟨endpoint, rfl⟩ |
    ⟨i, now, o, server, events, o', ho, hother, rfl⟩
  · exact { fits := fun o ho => (h.fits o ho).mono (List.prefix_refl _) fun name => hb.metrics_mono name
            events := h.events }
  · refine { fits := fun o ho => ?_, events := ?_ }
    · rcases List.mem_append.mp ho with ho | ho
      · exact (h.fits o ho).mono (List.prefix_refl _) fun name => Nat.le_refl _
      · rw [List.mem_singleton.mp ho]
        cases endpoint <;> exact trivial
    · show s.events.Perm ((s.others ++ [_]).filterMap _)
      rw [List.filterMap_append, List.filterMap_cons, kept_new]
      simpa using h.events
  · have hstep := other_step hother
    refine { fits := fun u hu => ?_, events := ?_ }
    · rcases List.mem_or_eq_of_mem_set hu with hu | rfl
      · obtain ⟨hevents, hcounters⟩ := hstep.grows i o'
        exact (h.fits u hu).mono hevents hcounters
      · exact (h.fits o (List.mem_of_getElem? ho)).step hother i
    · show events.Perm ((s.others.set i o').filterMap _)
      cases hstep with
      | quiet _ hkept => rw [filterMap_set_same ho hkept]; exact h.events
      | count _ _ hkept => rw [filterMap_set_same ho hkept]; exact h.events
      | store _ hnone hkept =>
          exact (h.events.append_right _).trans (filterMap_set_new ho hnone hkept).symm

theorem kept_exec {D : UploadCodec X} {startedAt : Time} {server : Server X} {as : List SiteAction} {s : Site X M}
    (h : exec (Site.step D) (Site.new M startedAt server) as = some s) : Kept s :=
  exec_invariant (fun _ _ _ h hs => h.step hs) as { fits := fun _ ho => absurd ho List.not_mem_nil, events := .refl _ } h

/-- A request that has left an event has been cleared, and the event is a redaction. -/
theorem OtherRequest.Fits.kept {s : Site X M} {o : OtherRequest X M} (h : o.Fits s) {e' : M.Event}
    (hkept : o.kept = some e') : ∃ body e, Cleared M body e ∧ e' = M.redact e ∧
      (o = .postEvent body (.stored e) ∨ o = .postEvent body (.counted e) ∨ o = .postEvent body (.taken e)) := by
  unfold OtherRequest.kept at hkept
  split at hkept
  · cases hkept
    exact ⟨_, _, checkEvent_accepted h, rfl, .inl rfl⟩
  · cases hkept
    exact ⟨_, _, checkEvent_accepted h, rfl, .inr (.inl rfl)⟩
  · cases hkept
    exact ⟨_, _, checkEvent_accepted h, rfl, .inr (.inr rfl)⟩
  · cases hkept

/-- An event that has been counted has been stored. -/
theorem OtherRequest.kept_of_counted (o : OtherRequest X M) (h : metricEventsReceived ∈ o.countedIn) :
    o.kept.isSome = true := by
  rcases List.mem_append.mp h with h | h
  · rw [mem_eventsReceived] at h
    unfold taken at h
    split at h
    · rfl
    · cases h
  · rw [Option.mem_toList] at h
    unfold between at h
    split at h <;> first | rfl | exact absurd (Option.some.inj h) (by decide) | cases h

/-- **What is kept of the visitors' events.** In every state of the server the events in its memory are one
    redaction for each request that stored its own, of an event that passed all checks; every event answered
    202 is among them, and `events_received` counts those; every summary that was answered is one of the events
    up to some point, and every answer of `/metrics` is a lower bound of the counters. -/
theorem events_exact {D : UploadCodec X} {C : RunCodec X} {os : Disk} {cfg : Config}
    {files : FilePath.Files C.Data} {server : Server X} (hopen : newServer C os cfg files = .ok server)
    (startedAt : Time) {as : List SiteAction} {s : Site X M}
    (h : exec (Site.step D) (Site.new M startedAt server) as = some s) :
    s.events.Perm (s.others.filterMap OtherRequest.kept) ∧
      (∀ e' ∈ s.events, ∃ body e, Cleared M body e ∧ e' = M.redact e ∧
        (.postEvent body (.stored e) ∈ s.others ∨ .postEvent body (.counted e) ∈ s.others ∨
          .postEvent body (.taken e) ∈ s.others)) ∧
      (∀ body stage, .postEvent body stage ∈ s.others → stage.reply = some (202, "") →
        ∃ e, Cleared M body e ∧ M.redact e ∈ s.events) ∧
      s.counter metricEventsReceived ≤ s.events.length ∧
      (∀ summary, .eventsSummary (some summary) ∈ s.others →
        ∃ n ≤ s.events.length, summary = M.summarize (s.events.take n)) ∧
      ∀ view : MetricsView, .metrics (some view) ∈ s.others →
        ∀ name ≠ "uptime_seconds", (view.lookup name).getD 0 ≤ s.counter name := by
  have hkept := kept_exec h
  refine ⟨hkept.events, fun e' he' => ?_, fun body stage hmem hreply => ?_, ?_, fun summary hmem => ?_,
    fun view hmem => ?_⟩
  · obtain ⟨o, ho, hleft⟩ := List.mem_filterMap.mp (hkept.events.mem_iff.mp he')
    obtain ⟨body, e, hcleared, heq, hstage⟩ := (hkept.fits o ho).kept hleft
    refine ⟨body, e, hcleared, heq, ?_⟩
    rcases hstage with rfl | rfl | rfl
    · exact .inl ho
    · exact .inr (.inl ho)
    · exact .inr (.inr ho)
  · cases stage with
    | taken e =>
        have hfits : checkEvent M body = .accepted e := hkept.fits _ hmem
        refine ⟨e, checkEvent_accepted hfits, hkept.events.mem_iff.mpr ?_⟩
        exact List.mem_filterMap.mpr ⟨_, hmem, rfl⟩
    | barred field => cases hreply
    | rejected message => cases hreply
    | _ => cases hreply
  · rw [(exact_exec hopen startedAt h).others (by decide) (by decide), hkept.events.length_eq,
      List.length_filterMap_eq_countP]
    exact List.countP_mono_left fun o _ hcounted => o.kept_of_counted (of_decide_eq_true hcounted)
  · exact hkept.fits _ hmem
  · exact hkept.fits _ hmem

/-- The one event that is kept was cleared, and is the redaction of what was sent. -/
theorem events_exact_sample : ∃ server s,
    newServer (sampleCodec sampleX) .ok defaultConfig ∅ = .ok server ∧
      exec (Site.step noUploads) (Site.new sampleOnboarding 0 server) sampleSiteActions = some s ∧
      s.counter metricEventsReceived ≤ 1 ∧
      ∃ body e, Cleared sampleOnboarding body e ∧ sampleOnboarding.redact e = ([1] : GoText.Bytes) := by
  obtain ⟨server, s, _, hopen, hs, hevents, _⟩ := exec_sampleSiteActions
  obtain ⟨_, hcleared, _, hle, _⟩ := events_exact hopen 0 hs
  obtain ⟨body, e, hc, heq, _⟩ := hcleared [1] (by rw [hevents]; exact List.mem_singleton_self _)
  rw [hevents] at hle
  exact ⟨server, s, hopen, hs, hle, body, e, hc, heq.symm⟩

end Api
end InfrixPlayground
