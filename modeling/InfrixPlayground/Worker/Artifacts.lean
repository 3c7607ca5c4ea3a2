import InfrixPlayground.Worker.Narration

/-!
# `Worker.Artifacts` — the narrated stages and the artifacts of the package

`flowSteps` is one fixed list, and a run emits all of it, complete, for whatever package the node returns.
A stage is `Backed` when the package holds an artifact for it; `narration_backed_iff` says exactly which
packages back the whole narration.
-/

namespace InfrixPlayground

open Worker

/-! ## The artifacts of a chain -/

/-- A chain link of one of these types. -/
def Chain.HasLink (chain : Chain) (types : List String) : Prop := ∃ l ∈ chain.links, l.type ∈ types

/-- A chain digest that is not zero. -/
def Chain.HasDigest (chain : Chain) : Prop := ∃ b ∈ chain.chainHash.toList, b ≠ 0

/-- The artifact of a stage: for the anchor the chain digest, for the others a link of a type `stepHashes`
    maps the stage to. -/
inductive Chain.Backs (chain : Chain) : String → Prop where
  | link {key : String} {types : List String} (hst : (key, types) ∈ stageTypes) (hl : chain.HasLink types) :
      Chain.Backs chain key
  | anchor (hd : chain.HasDigest) : Chain.Backs chain "anchor"

/-- Each stage of the chain has one entry in `stageTypes`, or is the anchor. -/
theorem Chain.backs_stage {chain : Chain} {key : String} {types : List String}
    (hst : (key, types) ∈ stageTypes) : chain.Backs key ↔ chain.HasLink types := by
  constructor
  · rintro (⟨hst', hl⟩ | hd)
    · -- the keys of `stageTypes` are distinct
      have hnodup : ∀ st ∈ stageTypes, ∀ st' ∈ stageTypes, st.1 = st'.1 → st = st' := by decide
      rw [(Prod.mk.inj (hnodup _ hst _ hst' rfl)).2]
      exact hl
    · have hkeys : ∀ st ∈ stageTypes, st.1 ≠ "anchor" := by decide
      exact absurd rfl (hkeys _ hst)
  · exact .link hst

theorem Chain.backs_anchor {chain : Chain} : chain.Backs "anchor" ↔ chain.HasDigest := by
  constructor
  · intro h
    cases h with
    | link hst hl =>
        have hkeys : ∀ st ∈ stageTypes, st.1 ≠ "anchor" := by decide
        exact absurd rfl (hkeys _ hst)
    | anchor hd => exact hd
  · exact .anchor

namespace Worker

variable {X : Externals}

/-! ## The artifacts of a package -/

/-- The evidence chain of a package, if its bundle data parses into one. -/
def parsedChain (X : Externals) (pkg : X.Package) : Option Chain :=
  (X.unmarshalBundle (X.bundleData pkg)).bind EvidenceBundle.chain

/-- The keys of the stages that stand for an artifact of the chain. -/
def chainStages : List String := stageTypes.map Prod.fst ++ ["anchor"]

/-- The package holds the artifact of a stage. -/
def Backed (X : Externals) (pkg : X.Package) (key : String) : Prop :=
  ∃ chain, parsedChain X pkg = some chain ∧ chain.Backs key

/-- The package holds the artifact of every stage of the golden escrow. -/
def EscrowShaped (X : Externals) (pkg : X.Package) : Prop :=
  ∃ chain, parsedChain X pkg = some chain ∧ (∀ st ∈ stageTypes, chain.HasLink st.2) ∧ chain.HasDigest

/-- A package that holds every artifact backs every stage, and conversely. -/
theorem escrowShaped_iff {pkg : X.Package} :
    EscrowShaped X pkg ↔ ∀ key ∈ chainStages, Backed X pkg key := by
  constructor
  · rintro ⟨chain, hchain, hlinks, hdigest⟩ key hkey
    refine ⟨chain, hchain, ?_⟩
    rcases List.mem_append.mp hkey with hkey | hkey
    · obtain ⟨st, hst, rfl⟩ := List.mem_map.mp hkey
      exact (Chain.backs_stage hst).mpr (hlinks st hst)
    · rw [List.mem_singleton.mp hkey]
      exact .anchor hdigest
  · intro h
    obtain ⟨chain, hchain, hanchor⟩ := h "anchor" (by decide)
    refine ⟨chain, hchain, fun st hst => ?_, Chain.backs_anchor.mp hanchor⟩
    obtain ⟨chain', hchain', hback⟩ := h st.1 (List.mem_append_left _ (List.mem_map_of_mem hst))
    cases Option.some.inj (hchain.symm.trans hchain')
    exact (Chain.backs_stage hst).mp hback

/-! ## The narration -/

/-- What the narration says of itself ("the proof's own structure"): each stage of the chain that a run
    emits as complete is backed by the package the node returned. -/
def NarrationBacked (r : Runner X) (post : NodeCall → NodeReply) (verifiedAt : String) (mode : Mode)
    (flow : String) : Prop :=
  ∀ s ∈ emitted (r.run post verifiedAt mode flow).1, s.status = .complete → s.key ∈ chainStages →
    ∃ pkg, r.returnedPackage post mode flow = some pkg ∧ Backed X pkg s.key

/-- Whatever the package, the narration has a complete step for every stage of the chain. -/
theorem narration_stage (pkg : X.Package) {key : String} (hkey : key ∈ chainStages) :
    ∃ s ∈ narration X pkg, s.key = key ∧ s.status = .complete := by
  have hkeys : ∀ key ∈ chainStages, key ∈ flowSteps.map Step.key := by decide
  obtain ⟨s, hs, rfl⟩ := List.mem_map.mp (hkeys key hkey)
  exact ⟨_, List.mem_map_of_mem hs, rfl, rfl⟩

/-- Every package a run gets is narrated whole. -/
theorem emitted_of_package {r : Runner X} {post : NodeCall → NodeReply} {mode : Mode} {flow : String}
    {pkg : X.Package} (hp : r.returnedPackage post mode flow = some pkg) (verifiedAt : String) :
    emitted (r.run post verifiedAt mode flow).1 = narration X pkg := by
  have hemits := (run_outcome r post verifiedAt mode flow).emits
  generalize emitted (r.run post verifiedAt mode flow).1 = ss at hemits ⊢
  generalize (r.run post verifiedAt mode flow).2.isOk = ok at hemits
  cases hemits with
  | refused hm => exact absurd (returnedPackage_eq_some.mp hp).1 hm
  | callFailed hm hnone => rw [hp] at hnone; cases hnone
  | narrated hp' => cases Option.some.inj (hp.symm.trans hp'); rfl

/-- A run that gets no package completes no step. -/
theorem not_complete_of_no_package {r : Runner X} {post : NodeCall → NodeReply} {mode : Mode}
    {flow : String} (hp : r.returnedPackage post mode flow = none) {verifiedAt : String} {s : Step}
    (hs : s ∈ emitted (r.run post verifiedAt mode flow).1) : s.status ≠ .complete := by
  have hemits := (run_outcome r post verifiedAt mode flow).emits
  generalize emitted (r.run post verifiedAt mode flow).1 = ss at hemits hs
  generalize (r.run post verifiedAt mode flow).2.isOk = ok at hemits
  cases hemits with
  | refused hm => exact absurd hs List.not_mem_nil
  | callFailed hm hnone => rw [List.mem_singleton.mp hs]; decide
  | narrated hp' => rw [hp] at hp'; cases hp'

/-- A narration that is backed shows a package with every artifact. -/
theorem NarrationBacked.escrowShaped {r : Runner X} {post : NodeCall → NodeReply} {verifiedAt : String}
    {mode : Mode} {flow : String} (h : NarrationBacked r post verifiedAt mode flow) {pkg : X.Package}
    (hp : r.returnedPackage post mode flow = some pkg) : EscrowShaped X pkg := by
  rw [escrowShaped_iff]
  intro key hkey
  obtain ⟨s, hs, rfl, hstatus⟩ := narration_stage pkg hkey
  rw [← emitted_of_package hp verifiedAt] at hs
  obtain ⟨pkg', hp', hbacked⟩ := h s hs hstatus hkey
  cases Option.some.inj (hp.symm.trans hp')
  exact hbacked

/-- The stand-in's node answers a create-DID run with a package whose bundle data is no bundle: all nine
    steps go out complete. -/
theorem narration_not_backed :
    ¬ NarrationBacked (.new sampleX "http://127.0.0.1:8080" false) (fun _ => .answered 200 [0x7B, 0x7D])
      "2024-01-01T00:00:00Z" modeAnonymous flowCreateDID := by
  intro h
  have hp : (Runner.new sampleX "http://127.0.0.1:8080" false).returnedPackage
      (fun _ => .answered 200 [0x7B, 0x7D]) modeAnonymous flowCreateDID
      = some (⟨padHash [0x7B, 0x7D], [0x7B, 0x7D]⟩ : SamplePackage) := by rfl
  obtain ⟨chain, hchain, _⟩ := h.escrowShaped hp
  cases hchain

/-- **When the narration is the proof's own structure**: exactly when the package the node returned, if it
    returned one, holds an artifact for every stage of the golden escrow. The flow that was asked for does
    not matter. -/
theorem narration_backed_iff (r : Runner X) (post : NodeCall → NodeReply) (verifiedAt : String)
    (mode : Mode) (flow : String) :
    NarrationBacked r post verifiedAt mode flow ↔
      ∀ pkg, r.returnedPackage post mode flow = some pkg → EscrowShaped X pkg := by
  refine ⟨fun h pkg hp => h.escrowShaped hp, fun h s hs hstatus hkey => ?_⟩
  cases hp : r.returnedPackage post mode flow with
  | none => exact absurd hstatus (not_complete_of_no_package hp hs)
  | some pkg => exact ⟨pkg, rfl, escrowShaped_iff.mp (h pkg hp) _ hkey⟩

end Worker
end InfrixPlayground
