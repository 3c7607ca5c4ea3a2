import InfrixPlayground.Externals

/-!
# `Worker.Flow` — modes, flows, and the narration of a governed flow

The vocabulary of the run executor: which backend a run asks for, the fixed flow allowlist, and the
ordered steps a run narrates as it executes.
-/

namespace InfrixPlayground
namespace Worker

/-- `type Mode string`: requests carry any text, only two are modes a run accepts. -/
structure Mode where
  name : String
deriving DecidableEq, Repr

/-- The fixture-backed path: no wallet, no live L0; caps at L3. -/
def modeAnonymous : Mode := ⟨"anonymous"⟩

/-- The live Kermit-sandbox path. -/
def modeKermit : Mode := ⟨"kermit"⟩

def flowGoldenEscrow : String := "golden-escrow"
def flowCreateDID : String := "create-did"
def flowIssueCredential : String := "issue-credential"

/-- The canonical flow allowlist, in display order. -/
def playgroundFlows : List String := [flowGoldenEscrow, flowCreateDID, flowIssueCredential]

/-- The lifecycle of a single progress step; a skeleton step has none yet. -/
inductive StepStatus where
  | unset
  | running
  | complete
  | failed
deriving DecidableEq, Repr

/-- One progress event a run emits as it executes; `hash` is empty for a stage without an artifact. -/
structure Step where
  key : String
  label : String
  status : StepStatus
  hash : String
deriving DecidableEq, Repr

/-- A step of the skeleton: no status, no hash. -/
def Step.skeleton (key label : String) : Step := ⟨key, label, .unset, ""⟩

/-- The canonical, ordered narration of the golden-escrow governed flow. -/
def flowSteps : List Step :=
  [ .skeleton "intent" "Buyer submits escrow intent",
    .skeleton "plan" "Infrix compiles a governed plan",
    .skeleton "policy" "Policy authorizes a regulated release",
    .skeleton "approval" "Operator approval bound to the plan hash",
    .skeleton "credential" "Delivery credential verified",
    .skeleton "outcome" "Funds released to the seller",
    .skeleton "anchor" "Evidence anchored",
    .skeleton "export" "Portable proof exported",
    .skeleton "verify" "Verified independently (no node trust)" ]

/-- The step of a run that never got a package. -/
def runFailedStep : Step := ⟨"run", "Run failed", .failed, ""⟩

/-- The complete output of a run. -/
structure RunResult (X : Externals) where
  mode : Mode
  networkLabel : String
  proofLabel : String
  receipt : Option X.Receipt
  package : X.Package
  bundleJSON : GoText.Bytes

end Worker
end InfrixPlayground
