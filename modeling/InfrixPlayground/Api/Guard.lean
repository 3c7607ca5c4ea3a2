import InfrixPlayground.Api.RateLimit
import InfrixPlayground.Api.Run
import InfrixPlayground.Worker.Runner

/-!
# `Api.Guard` — what a run request has to pass before the limiter

The two run endpoints check a request alike: decode it, fill in its flow and its mode, look the flow up in
the allowlist, and gate the Kermit mode. `screen` is that common part; `screen_ok` and `screen_error` say
what it lets through and how it refuses, and no later proof looks into it again.
-/

namespace InfrixPlayground
namespace Api

open GoText Worker

variable {X : Externals}

/-! ## Configuration -/

/-- The operator's configuration, without the listen address. -/
structure Config where
  runFlowEndpoint : String
  receiptDir : String
  kermitAvailable : Bool
  rateLimit : RateLimitConfig
  retention : Duration
  cleanupInterval : Duration

/-- The hosted defaults. -/
def defaultConfig : Config :=
  { runFlowEndpoint := "http://127.0.0.1:8080"
    receiptDir := ""
    kermitAvailable := false
    rateLimit := defaultRateLimitConfig
    retention := 24 * 60 * 60 * second
    cleanupInterval := 60 * 60 * second }

def Config.kermitEnabled (c : Config) : Bool := c.kermitAvailable

/-! ## The abuse guard -/

/-- The fixed allowlist of flows, and the bound on an uploaded proof. -/
structure AbuseGuard where
  allowedFlows : AList fun _ : String => Bool
  maxUploadByte : Nat

/-- `2 << 20`, the bound on a browser-uploaded proof bundle. -/
def defaultMaxUploadBytes : Nat := 2 <<< 20

def newAbuseGuard : AbuseGuard :=
  { allowedFlows := AList.insertAll (fun f => some (f, true)) ∅ playgroundFlows
    maxUploadByte := defaultMaxUploadBytes }

def AbuseGuard.maxUploadBytes (g : AbuseGuard) : Nat := g.maxUploadByte

def AbuseGuard.allowedFlow (g : AbuseGuard) (flow : String) : Bool :=
  (g.allowedFlows.lookup flow).getD false

/-- Why a flow is not allowed, if it is not. -/
def AbuseGuard.checkFlow (X : Externals) (g : AbuseGuard) (flow : String) : Option String :=
  if g.allowedFlow flow then none
  else some ("flow " ++ X.quote flow ++ " is not on the playground allowlist; available flows: " ++
    ", ".intercalate playgroundFlows)

/-- **The guard allows exactly the playground's flows.** -/
theorem allowedFlow_new {flow : String} :
    newAbuseGuard.allowedFlow flow = true ↔ flow ∈ playgroundFlows := by
  unfold AbuseGuard.allowedFlow newAbuseGuard
  by_cases h : flow ∈ playgroundFlows
  · rw [AList.lookup_insertAll_of_mem playgroundFlows ∅ ⟨flow, h, rfl⟩]
    · simp [h]
    · intro f _ b hb
      cases hb
      rfl
  · rw [AList.lookup_insertAll_of_not playgroundFlows ∅ ?_]
    · simp [h]
    · intro f hf b hb
      cases hb
      exact h hf

/-! ## Requests and replies -/

/-- What the run endpoints read of a request. -/
structure HttpRequest where
  body : Bytes
  xForwardedFor : String
  remoteAddr : String
deriving DecidableEq

/-- The caller's key for rate limiting: the first hop of `X-Forwarded-For` if there is one, else the
    connection's remote host. -/
def clientKey (r : HttpRequest) : String :=
  let xff := r.xForwardedFor
  if xff ≠ "" then
    if ',' ∈ xff.toList then trimSpace (before xff ',') else trimSpace xff
  else
    match splitHostPort r.remoteAddr with
    | none => r.remoteAddr
    | some (host, _) => host

/-- What an agent gets back from a run that completed. -/
structure AgentRunFlowResponse where
  ok : Bool
  flow : String
  mode : String
  runID : String
  receiptID : String
  proof : Bytes
  verifyHint : String
deriving DecidableEq, Repr

/-- An answer of a run endpoint; `retryAfter` is the value of the header of that name, if it is set. -/
inductive Reply where
  | error (status : Nat) (message : String) (retryAfter : Option Int)
  | accepted (id : String) (mode : Mode) (state : RunState) (steps : List Step)
  | proof (r : AgentRunFlowResponse)
deriving DecidableEq, Repr

def Reply.status : Reply → Nat
  | .error status _ _ => status
  | .accepted .. => 202
  | .proof _ => 200

/-! ## Screening -/

/-- What `RunManager.Start` is called with. -/
structure RunParams where
  mode : Mode
  flow : String
deriving DecidableEq, Repr

/-- A refusal before the limiter; a refusal by the abuse guard is counted. -/
structure Refusal where
  status : Nat
  message : String
  counted : Bool
deriving DecidableEq, Repr

def Refusal.reply (r : Refusal) : Reply := .error r.status r.message none

/-- An empty flow means the golden escrow. -/
def requestedFlow (req : CreateRunRequest) : String :=
  if req.flow = "" then flowGoldenEscrow else req.flow

/-- An empty mode means anonymous. -/
def requestedMode (req : CreateRunRequest) : Mode :=
  if req.mode = "" then modeAnonymous else ⟨req.mode⟩

/-- Why a mode is refused, if it is: there are two, and Kermit may be disabled. -/
def checkMode (X : Externals) (cfg : Config) (kermitDisabled : String) (req : CreateRunRequest) :
    Option Refusal :=
  let mode := requestedMode req
  if mode ≠ modeAnonymous ∧ mode ≠ modeKermit then
    some ⟨400, "unknown mode " ++ X.quote req.mode, false⟩
  else if mode = modeKermit ∧ cfg.kermitEnabled = false then some ⟨409, kermitDisabled, false⟩
  else none

/-- The checks of a run endpoint, in order, up to the limiter. -/
def screen (X : Externals) (cfg : Config) (guard : AbuseGuard) (kermitDisabled : String) (body : Bytes) :
    Except Refusal RunParams :=
  match X.decodeRunRequest body with
  | none => .error ⟨400, "invalid request body", false⟩
  | some req =>
    match guard.checkFlow X (requestedFlow req) with
    | some e => .error ⟨400, e, true⟩
    | none =>
      match checkMode X cfg kermitDisabled req with
      | some r => .error r
      | none => .ok { mode := requestedMode req, flow := requestedFlow req }

theorem checkFlow_eq_none {flow : String} :
    newAbuseGuard.checkFlow X flow = none ↔ flow ∈ playgroundFlows := by
  unfold AbuseGuard.checkFlow
  rw [← allowedFlow_new]
  split <;> simp_all

theorem checkMode_eq_none {cfg : Config} {kermitDisabled : String} {req : CreateRunRequest} :
    checkMode X cfg kermitDisabled req = none ↔ requestedMode req = modeAnonymous ∨
      requestedMode req = modeKermit ∧ cfg.kermitAvailable = true := by
  have hne : modeKermit ≠ modeAnonymous := by decide
  unfold checkMode
  by_cases ha : requestedMode req = modeAnonymous
  · simp [ha, hne.symm]
  · by_cases hk : requestedMode req = modeKermit
    · simp [hk, hne, Config.kermitEnabled]
    · simp [ha, hk]

/-- **What passes** is one of the playground's flows, in a mode this instance offers. -/
theorem screen_ok {cfg : Config} {kermitDisabled : String} {body : Bytes} {p : RunParams}
    (h : screen X cfg newAbuseGuard kermitDisabled body = .ok p) :
    p.flow ∈ playgroundFlows ∧
      (p.mode = modeAnonymous ∨ p.mode = modeKermit ∧ cfg.kermitAvailable = true) := by
  unfold screen at h
  split at h
  · cases h
  · split at h
    · cases h
    · rename_i hflow
      split at h
      · cases h
      · rename_i hmode
        cases h
        exact ⟨checkFlow_eq_none.mp hflow, checkMode_eq_none.mp hmode⟩

/-- A refusal says 400 or 409. -/
theorem screen_error {cfg : Config} {guard : AbuseGuard} {kermitDisabled : String} {body : Bytes}
    {r : Refusal} (h : screen X cfg guard kermitDisabled body = .error r) :
    r.status = 400 ∨ r.status = 409 := by
  unfold screen at h
  split at h
  · cases h; exact .inl rfl
  · split at h
    · cases h; exact .inl rfl
    · split at h
      · rename_i hmode
        cases h
        unfold checkMode at hmode
        dsimp only at hmode
        split at hmode
        · cases hmode; exact .inl rfl
        · split at hmode
          · cases hmode; exact .inr rfl
          · cases hmode
      · cases h

end Api
end InfrixPlayground
