import InfrixPlayground.Lib.JsValue

/-!
# `Web.BundleScene` — the proof a replay shows

`bundleToCinemaProof` makes a scene and an assurance out of a receipt and a package, either of which may be
missing or miss any of its fields. The scene is the governed flow; the level and the label come from the
receipt where it has them, else from whether there is an anchor.
-/

namespace InfrixPlayground
namespace Web

open Js

/-! ## The scene -/

/-- A stage of the governed flow. -/
structure FlowStage where
  id : String
  label : String
  kind : String

def FLOW : List FlowStage :=
  [ { id := "intent", label := "Intent", kind := "intent" },
    { id := "plan", label := "Plan", kind := "plan_step" },
    { id := "policy", label := "Policy: allow", kind := "policy" },
    { id := "approval", label := "Operator approval", kind := "approval" },
    { id := "credential", label := "Delivery credential", kind := "external_proof" },
    { id := "outcome", label := "Outcome: released", kind := "outcome" },
    { id := "anchor", label := "Anchored", kind := "anchor" } ]

structure Color where
  r : Nat
  g : Nat
  b : Nat
  a : Nat

def COLORS : List (String × Color) :=
  [ ("intent", { r := 100, g := 181, b := 246, a := 220 }),
    ("plan_step", { r := 129, g := 199, b := 132, a := 220 }),
    ("policy", { r := 255, g := 213, b := 79, a := 220 }),
    ("approval", { r := 186, g := 104, b := 200, a := 220 }),
    ("external_proof", { r := 77, g := 208, b := 225, a := 220 }),
    ("outcome", { r := 129, g := 199, b := 132, a := 240 }),
    ("anchor", { r := 240, g := 98, b := 146, a := 220 }) ]

/-- `COLORS[kind] || COLORS.plan_step`. -/
def colorOf (kind : String) : Color :=
  (COLORS.lookup kind).getD { r := 129, g := 199, b := 132, a := 220 }

structure SceneNode where
  id : String
  kind : String
  label : String
  x : Nat
  y : Nat
  size : Nat
  color : Color
  shape : String
  createdAtEvent : Nat
  lastUpdated : Nat

structure SceneEdge where
  source : String
  target : String
  kind : String

/-- The assurance of a replay; level and label are whatever the receipt has there. -/
structure SceneAssurance where
  id : String
  label : Value
  proofLevel : Value
  l0Verified : Bool
  nodeTrusted : Bool

structure SceneDetails where
  intent : Value
  plan : Value
  outcome : Value
  evidence : Value
  anchor : Value

structure CinemaProof where
  nodes : List SceneNode
  edges : List SceneEdge
  assurance : SceneAssurance
  details : SceneDetails
  subject : Value
  status : Value

/-- The stages that are shown. -/
def stagesShown (anchored : Bool) : List FlowStage := FLOW.filter fun s => s.id != "anchor" || anchored

def sceneNode (i : Nat) (s : FlowStage) : SceneNode :=
  { id := s.id, kind := s.kind, label := s.label, x := i * 130, y := i % 2 * 70, size := 16
    color := colorOf s.kind, shape := if s.kind = "anchor" then "diamond" else "rectangle"
    createdAtEvent := i, lastUpdated := i }

/-- An edge from each stage to the next. -/
def sceneEdges : List FlowStage → List SceneEdge
  | s :: t :: rest => { source := s.id, target := t.id, kind := "flow" } :: sceneEdges (t :: rest)
  | _ => []

/-- Whether there is an anchor: in the package, else in the receipt. -/
def isAnchored (receipt pkg : Value) : Bool :=
  truthy (pkg.bind fun p => if truthy (some p) then prop "anchorTxHash" p else none) ||
    truthy (prop "anchorTx" (orEmpty (prop "artifacts" (orEmpty receipt))))

/-- The level of a receipt that states none. -/
def levelOf (anchored : Bool) : Value := some (.str (if anchored then "L4" else "L3"))

def bundleToCinemaProof (receipt pkg : Value) : CinemaProof :=
  let r := orEmpty receipt
  let a := orEmpty (prop "assurance" r)
  let art := orEmpty (prop "artifacts" r)
  let anchored := isAnchored receipt pkg
  let steps := stagesShown anchored
  { nodes := steps.mapIdx sceneNode
    edges := sceneEdges steps
    assurance :=
      { id := if truthy (prop "l0Verified" a) then "l0_confirmed" else "offline"
        label := or (or (prop "label" a) (prop "proofLevel" a)) (levelOf anchored)
        proofLevel := or (prop "proofLevel" a) (levelOf anchored)
        l0Verified := truthy (prop "l0Verified" a)
        nodeTrusted := match prop "nodeTrusted" a with
          | some (.bool true) => true
          | _ => false }
    details :=
      { intent := or (prop "intentId" art) (some (.str ""))
        plan := or (prop "planId" art) (some (.str ""))
        outcome := or (prop "outcomeId" art) (some (.str ""))
        evidence := or (prop "evidenceId" art) (some (.str ""))
        anchor := or (prop "anchorTx" art) (some (.str "")) }
    subject := or (prop "subject" r) (some emptyObject)
    status := or (prop "status" r) (some (.str "")) }

/-- The stages a scene has: the anchor only where there is one. -/
theorem length_nodes (receipt pkg : Value) : (bundleToCinemaProof receipt pkg).nodes.length
    = if isAnchored receipt pkg then 7 else 6 := by
  show ((stagesShown (isAnchored receipt pkg)).mapIdx sceneNode).length = _
  rw [List.length_mapIdx]
  cases isAnchored receipt pkg <;> rfl

/-! ## The assurance -/

/-- The assurance of a receipt, as far as it has one. -/
def assuranceOf (receipt : Value) : Json := orEmpty (prop "assurance" (orEmpty receipt))

/-- The receipt says so itself: its assurance has `l0Verified` true. -/
def StatesL0 (receipt : Value) : Prop := prop "l0Verified" (assuranceOf receipt) = some (.bool true)

/-- The level shown is L4, or the label shown begins with it, only if the receipt carries that very level
    or label, or has L0 verified. -/
structure NotInflated (receipt : Value) (proof : CinemaProof) : Prop where
  level : proof.assurance.proofLevel = some (.str "L4") →
    prop "proofLevel" (assuranceOf receipt) = some (.str "L4") ∨ StatesL0 receipt
  label : ∀ s, proof.assurance.label = some (.str s) → "L4".toList <+: s.toList →
    prop "label" (assuranceOf receipt) = some (.str s) ∨
      prop "proofLevel" (assuranceOf receipt) = some (.str s) ∨ StatesL0 receipt

/-- An L4 that is shown is the receipt's own or rests on a verified L0, unless the fallback is taken with an
    anchor there. -/
theorem carried_of_shown {receipt own : Value} {anchored : Bool} {s : String}
    (hshown : or own (levelOf anchored) = some (.str s)) (hstarts : "L4".toList <+: s.toList)
    (h : truthy own = true ∨ anchored = false ∨ StatesL0 receipt) :
    own = some (.str s) ∨ StatesL0 receipt := by
  cases hown : truthy own with
  | true => rw [or_of_truthy hown] at hshown; exact .inl hshown
  | false =>
      rw [or_of_falsy hown] at hshown
      rcases h with h | rfl | hl0
      · rw [hown] at h; exact absurd h (by simp)
      · -- the fallback without an anchor is L3
        cases hshown
        exact absurd hstarts (by decide)
      · exact .inr hl0

theorem truthy_or_right {a b : Value} (h : truthy b = true) : truthy (or a b) = true := by
  cases ha : truthy a with
  | true => rwa [or_of_truthy ha]
  | false => rwa [or_of_falsy ha]

/-- **When the replay shows no more than the receipt says.** Exactly when the receipt states a level, or
    there is no anchor, or L0 is verified. -/
theorem not_inflated_iff (receipt pkg : Value) : NotInflated receipt (bundleToCinemaProof receipt pkg) ↔
    truthy (prop "proofLevel" (assuranceOf receipt)) = true ∨ isAnchored receipt pkg = false ∨
      StatesL0 receipt := by
  constructor
  · intro h
    by_contra hno
    simp only [not_or, Bool.not_eq_true] at hno
    obtain ⟨hlevel, hanchored, hl0⟩ := hno
    rw [Bool.not_eq_false] at hanchored
    -- nothing stands in the way of the fallback
    have hshown : (bundleToCinemaProof receipt pkg).assurance.proofLevel = some (.str "L4") := by
      show or (prop "proofLevel" (assuranceOf receipt)) (levelOf (isAnchored receipt pkg)) = _
      rw [or_of_falsy hlevel, hanchored]
      rfl
    rcases h.level hshown with hcarried | hcarried
    · rw [hcarried] at hlevel; exact absurd hlevel (by decide)
    · exact hl0 hcarried
  · intro h
    refine ⟨fun hshown => carried_of_shown hshown (by decide) h, fun s hshown hstarts => ?_⟩
    have hcarried : or (prop "label" (assuranceOf receipt)) (prop "proofLevel" (assuranceOf receipt))
        = some (.str s) ∨ StatesL0 receipt := carried_of_shown hshown hstarts (h.imp_left truthy_or_right)
    rcases hcarried with hown | hl0
    · cases hlabel : truthy (prop "label" (assuranceOf receipt)) with
      | true => rw [or_of_truthy hlabel] at hown; exact .inl hown
      | false => rw [or_of_falsy hlabel] at hown; exact .inr (.inl hown)
    · exact .inr (.inr hl0)

/-- A package that has an anchor transaction hash, and nothing else. -/
def anchoredPkg : Json := .obj [("anchorTxHash", .str "deadbeef")]

/-- **The replay that shows more.** No receipt, and a package with an anchor hash nobody has checked: the
    level shown is L4. -/
theorem anchored_shown_L4 :
    (bundleToCinemaProof none (some anchoredPkg)).assurance.proofLevel = some (.str "L4") ∧
      (bundleToCinemaProof none (some anchoredPkg)).assurance.label = some (.str "L4") ∧
        ¬ NotInflated none (bundleToCinemaProof none (some anchoredPkg)) := by
  refine ⟨rfl, rfl, fun h => ?_⟩
  rcases h.level rfl with hcarried | hcarried
  · exact absurd (show (none : Value) = _ from hcarried) (by simp)
  · exact absurd (show (none : Value) = _ from hcarried) (by simp)

end Web
end InfrixPlayground
