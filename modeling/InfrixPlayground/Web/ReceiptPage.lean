import InfrixPlayground.Api.Assurance
import InfrixPlayground.Api.Server

/-!
# `Web.ReceiptPage` — what the receipt page says above a proof

The page of a share link heads a proof by the mode of its record alone. Whether the anchor was confirmed is
decided elsewhere: `NewServer` builds its runner with `worker.New`, which wires no L0 confirmer, so `Run`
hands none to the verifier, whatever the mode. `live_heading_iff` puts the two together.
-/

namespace InfrixPlayground
namespace Web

open Api Worker Machine

variable {X : Externals}

/-- The heading of a live run. -/
def liveHeading : String := "Live Kermit run — confirmed against the testnet."

/-- The heading of any other run. -/
def fixtureHeading : String :=
  "Fixture-backed run — verified offline, caps at L3 (no live-L0 claim)."

/-- The line `renderReceipt` puts under "Proof receipt", by `data.mode`. -/
def receiptHeading (mode : String) : String := if mode = "kermit" then liveHeading else fixtureHeading

theorem receiptHeading_live {mode : String} : receiptHeading mode = liveHeading ↔ mode = modeKermit.name := by
  have hne : fixtureHeading ≠ liveHeading := by decide
  unfold receiptHeading
  by_cases h : mode = "kermit"
  · rw [if_pos h]
    exact ⟨fun _ => h, fun _ => rfl⟩
  · rw [if_neg h]
    exact ⟨fun he => absurd he hne, fun he => absurd he h⟩

/-- `receipt.assurance.l0Verified` of what the page is given. -/
def L0Verified (view : ReceiptView X) : Prop :=
  ∃ receipt, view.receipt = some receipt ∧ (X.assurance receipt).l0Verified = true

/-- The runner of a new server has no L0 confirmer, so neither has any of its calls to the verifier. -/
theorem verifyOptions_new (endpoint : String) (kermitAvailable : Bool) (mode : Mode) :
    ((Runner.new X endpoint kermitAvailable).verifyOptions mode).l0Confirmer = none := by
  unfold Runner.verifyOptions Runner.new
  split <;> rfl

/-- A new server's manager drives that runner. -/
theorem newServer_runs {C : RunCodec X} {os : Disk} {cfg : Config} {files : FilePath.Files C.Data}
    {server : Server X} (h : newServer C os cfg files = .ok server) :
    ∃ store, server.runs = newRunManager (.new X cfg.runFlowEndpoint cfg.kermitAvailable) store := by
  unfold newServer at h
  split at h
  · cases h
  · cases h
    exact ⟨_, rfl⟩

/-- The receipt of this record is L0-verified. -/
def Confirmed (rec : StoredRun X) : Prop :=
  ∃ receipt, rec.receipt = some receipt ∧ (X.assurance receipt).l0Verified = true

/-- The page shows of a served record its mode and its receipt. -/
theorem view_served {store : ReceiptStore X} {metrics : Metrics} {shareID : String} {rec : StoredRun X}
    (hserved : store.get shareID = some rec) :
    ∃ view, (handleGetReceipt store metrics shareID).2 = .ok view ∧
      (receiptHeading view.mode = liveHeading ↔ rec.mode = modeKermit.name) ∧
      (L0Verified view ↔ Confirmed rec) :=
  ⟨_, by rw [handleGetReceipt, hserved], receiptHeading_live, Iff.rfl⟩

/-- **When a live heading is backed.** At any moment of a server, whatever its configuration and its node,
    take a record that its store serves. The page heads it as confirmed only over an L0-verified receipt exactly
    when it is not a Kermit record, or was on disk at the start with an L0-verified receipt. A record that was
    not on disk has the mode of the run that made it, so no Kermit run of this server is backed. -/
theorem live_heading_iff
    (hverify : ∀ (pkg : X.Package) (opts : Options X.Confirmer), opts.l0Confirmer = none →
      (X.reportAssurance (X.verify pkg opts)).l0Verified = false)
    (hconvert : ∀ (rep : X.Report) (opts : ConvertOptions) (receipt : X.Receipt),
      X.fromVerifyReport rep opts = some receipt → X.assurance receipt = X.reportAssurance rep)
    {C : RunCodec X} {os : Disk} {cfg : Config} {files : FilePath.Files C.Data} {server : Server X}
    (hopen : newServer C os cfg files = .ok server) {as : List ServingAction} {s : Serving X}
    (h : exec Serving.step (Serving.new server) as = some s) {shareID : String} {rec : StoredRun X}
    (hserved : s.server.runs.store.get shareID = some rec) :
    (∃ view, (handleGetReceipt s.server.runs.store s.server.runs.metrics shareID).2 = .ok view ∧
      ((receiptHeading view.mode = liveHeading → L0Verified view) ↔
        rec.mode ≠ modeKermit.name ∨ server.runs.store.get shareID = some rec ∧ Confirmed rec)) ∧
    (server.runs.store.get shareID ≠ some rec →
      ∃ id t, s.server.runs.runs.lookup id = some t ∧ .inserted id rec ∈ s.server.runs.log ∧
        rec.mode = t.run.mode.name) := by
  obtain ⟨store, hruns⟩ := newServer_runs hopen
  have hprov : Provenance (.new X cfg.runFlowEndpoint cfg.kermitAvailable) store s.server.runs :=
    exec_manager .step .metrics (by rw [hruns]; exact provenance_new _ _) h
  have hstart : server.runs.store.get shareID = store.get shareID := by rw [hruns]; rfl
  rw [hstart]
  -- without a confirmer no receipt of this server is L0-verified
  have hmade : store.get shareID ≠ some rec → ¬ Confirmed rec := by
    rintro hnew ⟨receipt, hreceipt, hverified⟩
    obtain ⟨id, t, _, _, hrec⟩ := hprov.record hserved hnew
    obtain ⟨pkg, receipt', opts, _, hreceipt', hconverted⟩ := hrec.verdict
    cases Option.some.inj (hreceipt.symm.trans hreceipt')
    rw [hconvert _ _ _ hconverted, hverify _ _ (verifyOptions_new ..)] at hverified
    cases hverified
  constructor
  · obtain ⟨view, hview, hheading, hconfirmed⟩ := view_served hserved
    refine ⟨view, hview, ?_⟩
    rw [hheading, hconfirmed]
    constructor
    · intro hbacked
      by_cases hmode : rec.mode = modeKermit.name
      · by_cases hnew : store.get shareID = some rec
        · exact .inr ⟨hnew, hbacked hmode⟩
        · exact absurd (hbacked hmode) (hmade hnew)
      · exact .inl hmode
    · rintro (hmode | ⟨_, hconf⟩) hkermit
      · exact absurd hkermit hmode
      · exact hconf
  · intro hnew
    obtain ⟨id, t, hrun, hinserted, hrec⟩ := hprov.record hserved hnew
    obtain ⟨_, _, _, hmode, _⟩ := hrec.verdict
    exact ⟨id, t, hrun, hinserted, hmode⟩

/-- The stand-in, where requests ask for this mode. -/
abbrev askingX (mode : Mode) : Externals :=
  { sampleX with decodeRunRequest := fun _ => some { mode := mode.name, flow := "" } }

/-- A server that offers Kermit runs, after one run of this mode. -/
def servedRun (mode : Mode) : Option (Serving (askingX mode)) :=
  (newServer (sampleCodec (askingX mode)) .ok { defaultConfig with kermitAvailable := true } ∅).toOption.bind
    fun server => exec Serving.step (Serving.new server) completedTraffic

/-- Without a confirmer the stand-in's verifier reports no L0. -/
theorem verify_offline_asking (mode : Mode) (pkg : SamplePackage) (opts : Options (Hash → Bool))
    (h : opts.l0Confirmer = none) :
    ((askingX mode).reportAssurance ((askingX mode).verify pkg opts)).l0Verified = false := by
  show confirms opts pkg.exportHash = false
  unfold confirms
  rw [h]

/-- A Kermit run: the verifier is given no confirmer and reports none, and the page says the testnet confirmed
    the run. -/
theorem live_heading_not_backed :
    (∀ (pkg : SamplePackage) (opts : Options (Hash → Bool)), opts.l0Confirmer = none →
      ((askingX modeKermit).reportAssurance ((askingX modeKermit).verify pkg opts)).l0Verified = false) ∧
    ∃ s view, servedRun modeKermit = some s ∧
      (handleGetReceipt s.server.runs.store s.server.runs.metrics sampleShareID).2 = .ok view ∧
      receiptHeading view.mode = liveHeading ∧ ¬ L0Verified view := by
  refine ⟨verify_offline_asking modeKermit, ?_⟩
  have hrun : (servedRun modeKermit).map (fun s =>
      match (handleGetReceipt s.server.runs.store s.server.runs.metrics sampleShareID).2 with
      | .ok view => (view.mode, view.receipt.map fun r => r.report.assurance.l0Verified)
      | .error _ => ("", none)) = some (modeKermit.name, some false) := by decide +kernel
  obtain ⟨s, hs, hview⟩ := Option.map_eq_some_iff.mp hrun
  split at hview
  · rename_i view hget
    obtain ⟨hmode, hverified⟩ := Prod.mk.inj hview
    refine ⟨s, view, hs, hget, receiptHeading_live.mpr hmode, ?_⟩
    rintro ⟨receipt, hreceipt, hl0⟩
    rw [hreceipt] at hverified
    exact absurd (hl0.symm.trans (Option.some.inj hverified)) (by decide)
  · exact absurd (Prod.mk.inj hview).1 (by decide)

/-- An anonymous run of such a server. -/
theorem live_heading_iff_sample : ∃ (s : Serving (askingX modeAnonymous))
    (view : ReceiptView (askingX modeAnonymous)) (rec : StoredRun (askingX modeAnonymous)),
    servedRun modeAnonymous = some s ∧ s.server.runs.store.get sampleShareID = some rec ∧
    (handleGetReceipt s.server.runs.store s.server.runs.metrics sampleShareID).2 = .ok view ∧
    rec.mode ≠ modeKermit.name ∧ (receiptHeading view.mode = liveHeading → L0Verified view) := by
  have hrun : (servedRun modeAnonymous).map (fun s =>
      (s.server.runs.store.get sampleShareID).map (·.mode)) = some (some modeAnonymous.name) := by
    decide +kernel
  obtain ⟨s, hs, hget⟩ := Option.map_eq_some_iff.mp hrun
  obtain ⟨rec, hserved, hmode⟩ := Option.map_eq_some_iff.mp hget
  obtain ⟨server, hopen, hexec⟩ := Option.bind_eq_some_iff.mp hs
  have hopen : newServer (sampleCodec (askingX modeAnonymous)) .ok
      { defaultConfig with kermitAvailable := true } ∅ = .ok server := congrArg Except.ok (Option.some.inj hopen)
  obtain ⟨⟨view, hview, hiff⟩, _⟩ :=
    live_heading_iff (verify_offline_asking modeAnonymous) (fun rep opts receipt h => by cases h; rfl) hopen
      hexec hserved
  have hne : rec.mode ≠ modeKermit.name := by rw [hmode]; decide
  exact ⟨s, view, rec, hs, hserved, hview, hne, hiff.mpr (.inl hne)⟩

end Web
end InfrixPlayground
