import Mathlib.Data.List.AList
import InfrixPlayground.Worker.Flow

/-!
# `Worker.StepHashes` — the artifact hash each narrated step carries

`stepHashes` maps a step key to the short hex of the artifact it stands for: a chain link's content
hash, the anchored chain digest, or the export seal. Keys it cannot resolve are missing from the map.
-/

namespace InfrixPlayground
namespace Worker

open GoText

/-- A `map[string]string`. -/
abbrev HashMap := AList fun _ : String => String

/-- The first 8 bytes in hex; nothing for no bytes. -/
def short (b : Bytes) : String :=
  if b.length = 0 then "" else hexEncodeToString (b.take (min b.length 8))

/-- Record a hash unless it is empty. -/
def setHash (out : HashMap) (key h : String) : HashMap := if h ≠ "" then out.insert key h else out

/-- The content hash of each link type; a later link of a type replaces an earlier one. -/
def linksByType (links : List ChainLink) : HashMap :=
  links.foldl (fun m l => m.insert l.type (short l.contentHash.toList)) ∅

/-- The hash of the first of `types` that occurs. -/
def linkHash (byType : HashMap) (types : List String) : String :=
  (types.findSome? byType.lookup).getD ""

/-- The link types each stage stands for, in order of preference. -/
def stageTypes : List (String × List String) :=
  [ ("intent", ["intent"]),
    ("plan", ["plan"]),
    ("policy", ["policy_decision", "policy"]),
    ("approval", ["approval"]),
    ("credential", ["external_proof", "credential", "trust_assumption"]),
    ("outcome", ["outcome"]) ]

/-- The artifact hashes of a package, by step key. -/
def stepHashes (X : Externals) (pkg : X.Package) : HashMap :=
  -- the export seal lives on the package itself
  let out := setHash ∅ "export" (short (X.exportHash pkg).toList)
  match X.unmarshalBundle (X.bundleData pkg) with
  | none => out
  | some bundle =>
    match bundle.chain with
    | none => out
    | some chain =>
      let byType := linksByType chain.links
      let out := stageTypes.foldl (fun out st => setHash out st.1 (linkHash byType st.2)) out
      setHash out "anchor" (short chain.chainHash.toList)

end Worker
end InfrixPlayground
