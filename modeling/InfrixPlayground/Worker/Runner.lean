import InfrixPlayground.Worker.StepHashes

/-!
# `Worker.Runner` — one run against a node

`Runner.run` asks the node to run a flow, narrates the returned package, re-verifies it offline and
builds the receipt. Its observable effects are kept in the order the code performs them: the steps it
emits, its call to the node, and its call to the verifier. The node's answer is an argument, so a
statement about every answer is a statement about every node, honest or not.
-/

namespace InfrixPlayground
namespace Worker

open GoText

variable {X : Externals}

/-- What `client.Do` gives back: a transport error, or a status with the body that could be read. -/
inductive NodeReply where
  | failed (err : String)
  | answered (status : Nat) (body : Bytes)
deriving DecidableEq, Repr

/-- The POST a run sends to the node. -/
structure NodeCall where
  url : String
  request : RunFlowRequest
  body : Bytes
deriving DecidableEq, Repr

/-- What a run does that others can see, in order. -/
inductive Effect (X : Externals) where
  | emit (s : Step)
  | callNode (call : NodeCall)
  | verify (pkg : X.Package) (opts : Options X.Confirmer) (rep : X.Report)

/-- Executes runs against a node's run-flow endpoint and verifies the result offline. -/
structure Runner (X : Externals) where
  endpoint : String
  kermitAvailable : Bool
  l0Confirmer : Option X.Confirmer

/-- `worker.New`. -/
def Runner.new (X : Externals) (endpoint : String) (kermitAvailable : Bool) : Runner X :=
  { endpoint, kermitAvailable, l0Confirmer := none }

/-- Whether live Kermit runs are available on this instance. -/
def Runner.kermitEnabled (r : Runner X) : Bool := r.kermitAvailable

/-! ## The call to the node -/

/-- `8 << 20`, the bound on a response body. -/
def maxResponseBytes : Nat := 8 <<< 20

/-- An empty flow means the golden escrow. -/
def defaultFlow (flow : String) : String :=
  if trimSpace flow = "" then flowGoldenEscrow else flow

/-- `callRunFlow` up to `client.Do`: the request it sends, or why it sends none. -/
def Runner.nodeCall (r : Runner X) (mode : Mode) (flow : String) : Except String NodeCall :=
  if trimSpace r.endpoint = "" then .error "playground: no run-flow endpoint configured"
  else
    let request : RunFlowRequest := { mode := mode.name, flow := defaultFlow flow }
    match X.marshalRequest request with
    | .error e => .error ("playground: encode run-flow request: " ++ e)
    | .ok body =>
      let url := trimRightSlash r.endpoint ++ "/v4/playground/runFlow"
      match X.newRequestError url with
      | some e => .error ("playground: build run-flow request: " ++ e)
      | none => .ok { url, request, body }

/-- `callRunFlow` after `client.Do`: decode the response, surfacing the node's error message. -/
def decodeReply (X : Externals) (reply : NodeReply) : Except String (RunFlowResponse X.Package) :=
  match reply with
  | .failed e => .error ("playground: call run-flow endpoint: " ++ e)
  | .answered status body =>
    let body := body.take maxResponseBytes
    if status ≠ 200 then
      match X.unmarshalNodeError body with
      | some message =>
        if message ≠ "" then .error ("playground: run-flow failed: " ++ message)
        else .error ("playground: run-flow endpoint returned status " ++ toString status)
      | none => .error ("playground: run-flow endpoint returned status " ++ toString status)
    else
      match X.unmarshalResponse body with
      | .error e => .error ("playground: decode run-flow response: " ++ e)
      | .ok resp => .ok resp

/-- POST the run request to the node (`post` is its answer) and decode the response. -/
def Runner.callRunFlow (r : Runner X) (post : NodeCall → NodeReply) (mode : Mode) (flow : String) :
    List (Effect X) × Except String (RunFlowResponse X.Package) :=
  match r.nodeCall mode flow with
  | .error e => ([], .error e)
  | .ok call => ([.callNode call], decodeReply X (post call))

/-! ## The run -/

/-- Why a mode is refused before anything happens, if it is. -/
def Runner.modeError (r : Runner X) (mode : Mode) : Option String :=
  if mode = modeAnonymous then none
  else if mode = modeKermit then
    if !r.kermitEnabled then
      some "Kermit Sandbox mode is disabled on this instance — use Anonymous Demo mode, which runs the same governed flow deterministically without a wallet or funding"
    else none
  else some ("unknown run mode " ++ X.quote mode.name)

/-- The produced proof's structure as completed steps, each with the hash of its artifact. -/
def narration (X : Externals) (pkg : X.Package) : List Step :=
  let hashes := stepHashes X pkg
  flowSteps.map fun s => { s with status := .complete, hash := (hashes.lookup s.key).getD "" }

/-- The verifier's options: only a Kermit run may confirm its anchor. -/
def Runner.verifyOptions (r : Runner X) (mode : Mode) : Options X.Confirmer :=
  { l0Confirmer := if mode = modeKermit then r.l0Confirmer else none }

/-- What the receipt converter is given besides the report. -/
def convertOptions (X : Externals) (mode : Mode) (resp : RunFlowResponse X.Package)
    (verifiedAt : String) : ConvertOptions :=
  { subjectType := X.subjectEvidence
    intentID := resp.intentID
    planID := resp.planID
    outcomeID := resp.outcomeID
    evidenceID := resp.bundleID
    anchorTx := resp.anchorTx
    verifier := "infrix verify"
    command := if mode = modeKermit then "infrix verify <bundle>.infrix.json --l0 " ++ resp.networkLabel
      else "infrix verify <bundle>.infrix.json"
    network := resp.networkLabel
    verifiedAt := verifiedAt }

/-- **`Runner.Run`.** The effects of a run in order, and its result or error; `verifiedAt` is the clock
    reading the receipt is stamped with. -/
def Runner.run (r : Runner X) (post : NodeCall → NodeReply) (verifiedAt : String) (mode : Mode)
    (flow : String) : List (Effect X) × Except String (RunResult X) :=
  let flow := defaultFlow flow
  match r.modeError mode with
  | some e => ([], .error e)
  | none =>
    match r.callRunFlow post mode flow with
    | (effs, .error e) => (effs ++ [.emit runFailedStep], .error e)
    | (effs, .ok resp) =>
      match resp.package with
      | none =>
        (effs ++ [.emit runFailedStep], .error "playground: node returned no portable package")
      | some pkg =>
        let effs := effs ++ (narration X pkg).map .emit
        -- the trust-bearing step: the node's labels are never trusted for the verdict
        let opts := r.verifyOptions mode
        let rep := X.verify pkg opts
        let effs := effs ++ [.verify pkg opts rep]
        match X.marshalPackage pkg with
        | .error e => (effs, .error ("playground: marshal portable bundle: " ++ e))
        | .ok bundleJSON =>
          (effs, .ok
            { mode := mode
              networkLabel := resp.networkLabel
              proofLabel := resp.proofLabel
              receipt := X.fromVerifyReport rep (convertOptions X mode resp verifiedAt)
              package := pkg
              bundleJSON := bundleJSON })

/-- The steps among some effects. -/
def emitted (effs : List (Effect X)) : List Step :=
  effs.filterMap fun
    | .emit s => some s
    | _ => none

end Worker
end InfrixPlayground
