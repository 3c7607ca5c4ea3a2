import Mathlib.Data.Rat.Defs
import Mathlib.Data.Vector.Defs
import InfrixPlayground.Lib.GoText

/-!
# `Externals` — the published modules and library codecs the playground calls

The playground invents no proof logic: the package type, the verifier and the receipt converter come
from the published `infrix-schema` and `infrix-verify` modules, and every byte that crosses a wire or a
disk goes through `encoding/json`. None of that code is in the repository, so it is one parameter of the
model, `X : Externals`. Only the fields the playground reads are named; nothing is assumed about them
here; a result that relies on documented behaviour states it as a hypothesis.
-/

namespace InfrixPlayground

open GoText

/-- `time.Time`, in seconds since Go's zero time; exact. -/
abbrev Time := ℚ

/-- `time.Duration`, in nanoseconds. -/
abbrev Duration := ℤ

/-- `time.Second`. -/
def second : Duration := 1000000000

/-- A 32-byte hash, `[32]byte`. -/
abbrev Hash := List.Vector UInt8 32

/-- The part of a verdict (or of a receipt) that says how strong the proof is. -/
structure Assurance where
  proofLevel : String
  l0Verified : Bool
deriving DecidableEq, Repr

/-- One link of an evidence chain, `schemaev.EvidenceBundle.Chain.Links[i]`. -/
structure ChainLink where
  type : String
  contentHash : Hash
deriving DecidableEq

/-- `schemaev.EvidenceBundle.Chain`. -/
structure Chain where
  links : List ChainLink
  chainHash : Hash
deriving DecidableEq

/-- `schemaev.EvidenceBundle`, as far as it is read. -/
structure EvidenceBundle where
  chain : Option Chain
deriving DecidableEq

/-- `verifykit.Options`. -/
structure Options (Confirmer : Type) where
  l0Confirmer : Option Confirmer

/-- `verifypr.VerifyConvertOptions`. -/
structure ConvertOptions where
  subjectType : String
  intentID : String
  planID : String
  outcomeID : String
  evidenceID : String
  anchorTx : String
  verifier : String
  command : String
  network : String
  verifiedAt : String
deriving DecidableEq, Repr

/-- The `/v4/playground/runFlow` request body. -/
structure RunFlowRequest where
  mode : String
  flow : String
deriving DecidableEq, Repr

/-- The `/v4/playground/runFlow` response body; the labels are informational. -/
structure RunFlowResponse (Package : Type) where
  networkLabel : String
  proofLabel : String
  l0Verified : Bool
  intentID : String
  planID : String
  outcomeID : String
  bundleID : String
  anchorTx : String
  package : Option Package

/-- The body of a run request, `createRunRequest`. -/
structure CreateRunRequest where
  mode : String
  flow : String
deriving DecidableEq, Repr

/-- Everything outside the repository that its code calls. -/
structure Externals where
  /-- `schemaev.PortableEvidencePackage`. -/
  Package : Type
  /-- What `verifykit.Verify` returns. -/
  Report : Type
  /-- `schemapr.Receipt`. -/
  Receipt : Type
  /-- `verifykit.L0AnchorConfirmer`. -/
  Confirmer : Type
  exportHash : Package → Hash
  bundleData : Package → Bytes
  /-- `json.Unmarshal(pkg.BundleData, &bundle)`. -/
  unmarshalBundle : Bytes → Option EvidenceBundle
  /-- `json.Marshal(runFlowRequest{…})`. -/
  marshalRequest : RunFlowRequest → Except String Bytes
  /-- The error of `http.NewRequestWithContext` for a URL, if any. -/
  newRequestError : String → Option String
  /-- `json.Unmarshal(body, &resp)`. -/
  unmarshalResponse : Bytes → Except String (RunFlowResponse Package)
  /-- The `error.message` of a body that unmarshals into the node's error shape. -/
  unmarshalNodeError : Bytes → Option String
  /-- `json.MarshalIndent(pkg, "", "  ")`. -/
  marshalPackage : Package → Except String Bytes
  /-- `verifykit.Verify`. -/
  verify : Package → Options Confirmer → Report
  verified : Report → Bool
  reportAssurance : Report → Assurance
  /-- `verifypr.FromVerifyReport`; `none` is a nil receipt. -/
  fromVerifyReport : Report → ConvertOptions → Option Receipt
  assurance : Receipt → Assurance
  /-- `schemapr.SubjectEvidence`. -/
  subjectEvidence : String
  /-- `Receipt.MarshalJSONIndent`. -/
  marshalReceipt : Receipt → Except String Bytes
  /-- `sha256.Sum256`. -/
  sha256 : Bytes → Hash
  /-- `strconv.Quote`, the `%q` of `fmt`. -/
  quote : String → String
  /-- `json.NewDecoder(http.MaxBytesReader(w, body, 4096)).Decode(&req)`. -/
  decodeRunRequest : Bytes → Option CreateRunRequest

/-! ## A small instance

A stand-in that computes, for evaluating the model on concrete inputs: packages are a seal and a
payload, an empty payload does not verify, and only a confirmer that accepts the seal reaches L4. What
the node's body decodes to is a parameter. -/

/-- A package of the stand-in. -/
structure SamplePackage where
  exportHash : Hash
  bundleData : Bytes
deriving DecidableEq

/-- A verdict of the stand-in. -/
structure SampleReport where
  verified : Bool
  assurance : Assurance
deriving DecidableEq

/-- A receipt of the stand-in: the verdict and what the converter was given. -/
structure SampleReceipt where
  report : SampleReport
  opts : ConvertOptions
deriving DecidableEq

/-- The low byte of each code point. -/
def asciiBytes (s : String) : Bytes := s.toList.map fun c => UInt8.ofNat c.toNat

/-- The first 32 bytes, padded with zeros. -/
def padHash (b : Bytes) : Hash :=
  ⟨(b ++ List.replicate 32 0).take 32, by
    rw [List.length_take, List.length_append, List.length_replicate]; omega⟩

/-- Whether a confirmer was given and accepts the seal. -/
def confirms (opts : Options (Hash → Bool)) (exportHash : Hash) : Bool :=
  match opts.l0Confirmer with
  | some confirm => confirm exportHash
  | none => false

/-- The stand-in whose node answers decode by `decode`. -/
def Externals.sample (decode : Bytes → Except String (RunFlowResponse SamplePackage)) : Externals where
  Package := SamplePackage
  Report := SampleReport
  Receipt := SampleReceipt
  Confirmer := Hash → Bool
  exportHash := SamplePackage.exportHash
  bundleData := SamplePackage.bundleData
  unmarshalBundle := fun _ => none
  marshalRequest := fun r => .ok (asciiBytes r.mode ++ asciiBytes r.flow)
  newRequestError := fun _ => none
  unmarshalResponse := decode
  unmarshalNodeError := fun _ => none
  marshalPackage := fun pkg => .ok (pkg.exportHash.toList ++ pkg.bundleData)
  verify := fun pkg opts =>
    { verified := !pkg.bundleData.isEmpty
      assurance :=
        { proofLevel := if confirms opts pkg.exportHash then "L4" else "L3"
          l0Verified := confirms opts pkg.exportHash } }
  verified := SampleReport.verified
  reportAssurance := SampleReport.assurance
  fromVerifyReport := fun rep opts => some { report := rep, opts }
  assurance := fun r => r.report.assurance
  subjectEvidence := "evidence"
  marshalReceipt := fun r => .ok (asciiBytes r.opts.intentID ++ asciiBytes r.opts.verifiedAt)
  sha256 := padHash
  quote := fun s => "\"" ++ s ++ "\""
  decodeRunRequest := fun body => if body.isEmpty then none else some { mode := "", flow := "" }

/-- A response of the stand-in's node: a package with these labels and this payload. -/
def sampleResponse (proofLabel : String) (payload : Bytes) : RunFlowResponse SamplePackage where
  networkLabel := "local deterministic demo"
  proofLabel := proofLabel
  l0Verified := false
  intentID := "intent-1"
  planID := "plan-1"
  outcomeID := "outcome-1"
  bundleID := "bundle-1"
  anchorTx := ""
  package := some { exportHash := padHash payload, bundleData := payload }

/-- The stand-in whose node always answers with a package that verifies. -/
abbrev sampleX : Externals := .sample fun _ => .ok (sampleResponse "L3" [0x7B, 0x7D])

end InfrixPlayground
