import InfrixPlayground.Worker.Runner

/-!
# `Worker.Narration` — what a run can do, and what its narration promises

`RunOutcome` says once everything `Runner.run` can do, exit by exit; every fact about a run is read off
it. The narration is emitted in full before the verifier is called, its closing `verify` step included:
`verifiedFirst_iff` says exactly when that step keeps its promise.
-/

namespace InfrixPlayground
namespace Worker

variable {X : Externals}

/-! ## The exits of a run -/

/-- The exits of `Runner.run`, each with the effects and the result it leaves. -/
inductive RunOutcome (r : Runner X) (post : NodeCall → NodeReply) (verifiedAt : String) (mode : Mode)
    (flow : String) : List (Effect X) → Except String (RunResult X) → Prop where
  | refused {e : String} (hm : r.modeError mode = some e) :
      RunOutcome r post verifiedAt mode flow [] (.error e)
  | callFailed {effs : List (Effect X)} {e : String} (hm : r.modeError mode = none)
      (hc : r.callRunFlow post mode (defaultFlow flow) = (effs, .error e)) :
      RunOutcome r post verifiedAt mode flow (effs ++ [.emit runFailedStep]) (.error e)
  | noPackage {effs : List (Effect X)} {resp : RunFlowResponse X.Package}
      (hm : r.modeError mode = none)
      (hc : r.callRunFlow post mode (defaultFlow flow) = (effs, .ok resp))
      (hp : resp.package = none) :
      RunOutcome r post verifiedAt mode flow (effs ++ [.emit runFailedStep])
        (.error "playground: node returned no portable package")
  | notEncoded {effs : List (Effect X)} {resp : RunFlowResponse X.Package} {pkg : X.Package}
      {e : String} (hm : r.modeError mode = none)
      (hc : r.callRunFlow post mode (defaultFlow flow) = (effs, .ok resp))
      (hp : resp.package = some pkg) (he : X.marshalPackage pkg = .error e) :
      RunOutcome r post verifiedAt mode flow
        (effs ++ (narration X pkg).map .emit ++
          [.verify pkg (r.verifyOptions mode) (X.verify pkg (r.verifyOptions mode))])
        (.error ("playground: marshal portable bundle: " ++ e))
  | finished {effs : List (Effect X)} {resp : RunFlowResponse X.Package} {pkg : X.Package}
      {bundleJSON : GoText.Bytes} (hm : r.modeError mode = none)
      (hc : r.callRunFlow post mode (defaultFlow flow) = (effs, .ok resp))
      (hp : resp.package = some pkg) (he : X.marshalPackage pkg = .ok bundleJSON) :
      RunOutcome r post verifiedAt mode flow
        (effs ++ (narration X pkg).map .emit ++
          [.verify pkg (r.verifyOptions mode) (X.verify pkg (r.verifyOptions mode))])
        (.ok
          { mode := mode
            networkLabel := resp.networkLabel
            proofLabel := resp.proofLabel
            receipt := X.fromVerifyReport (X.verify pkg (r.verifyOptions mode))
              (convertOptions X mode resp verifiedAt)
            package := pkg
            bundleJSON := bundleJSON })

/-- **A run leaves through one of its exits.** -/
theorem run_outcome (r : Runner X) (post : NodeCall → NodeReply) (verifiedAt : String) (mode : Mode)
    (flow : String) :
    RunOutcome r post verifiedAt mode flow (r.run post verifiedAt mode flow).1
      (r.run post verifiedAt mode flow).2 := by
  unfold Runner.run
  cases hm : r.modeError mode with
  | some e => exact .refused hm
  | none =>
      rcases hc : r.callRunFlow post mode (defaultFlow flow) with ⟨effs, res⟩
      cases res with
      | error e => simp only [hc]; exact .callFailed hm hc
      | ok resp =>
          cases hp : resp.package with
          | none => simp only [hc, hp]; exact .noPackage hm hc hp
          | some pkg =>
              cases he : X.marshalPackage pkg with
              | error e => simp only [hc, hp, he]; exact .notEncoded hm hc hp he
              | ok bundleJSON => simp only [hc, hp, he]; exact .finished hm hc hp he

/-! ## What the call contributes -/

/-- The request a run sends to the node, if it gets that far. -/
def Runner.pendingCall (r : Runner X) (mode : Mode) (flow : String) : Option NodeCall :=
  match r.modeError mode with
  | some _ => none
  | none => (r.nodeCall mode (defaultFlow flow)).toOption

/-- The effects of the call itself: the request, if one is sent. -/
theorem callRunFlow_effects (r : Runner X) (post : NodeCall → NodeReply) (mode : Mode)
    (flow : String) :
    (r.callRunFlow post mode flow).1 = (r.nodeCall mode flow).toOption.toList.map .callNode := by
  unfold Runner.callRunFlow
  cases r.nodeCall mode flow <;> rfl

/-- The request a run sends says what it was asked for. -/
theorem nodeCall_request {r : Runner X} {mode : Mode} {flow : String} {call : NodeCall}
    (h : r.nodeCall mode flow = .ok call) :
    call.request = { mode := mode.name, flow := defaultFlow flow } := by
  unfold Runner.nodeCall at h
  split at h
  · exact absurd h (by simp)
  · simp only at h
    split at h
    · exact absurd h (by simp)
    · split at h
      · exact absurd h (by simp)
      · rw [← Except.ok.inj h]

theorem pendingCall_eq_some {r : Runner X} {mode : Mode} {flow : String} {call : NodeCall} :
    r.pendingCall mode flow = some call ↔
      r.modeError mode = none ∧ r.nodeCall mode (defaultFlow flow) = .ok call := by
  unfold Runner.pendingCall
  cases hm : r.modeError mode with
  | some e => simp
  | none => cases hc : r.nodeCall mode (defaultFlow flow) <;> simp [Except.toOption]

/-- A run without a request to send does not depend on the node: any answer stands for none. -/
theorem run_of_no_call {r : Runner X} {mode : Mode} {flow : String}
    (h : r.pendingCall mode flow = none) (post post' : NodeCall → NodeReply) (verifiedAt : String) :
    r.run post verifiedAt mode flow = r.run post' verifiedAt mode flow := by
  unfold Runner.pendingCall at h
  unfold Runner.run Runner.callRunFlow
  cases hm : r.modeError mode with
  | some e => rfl
  | none =>
      cases hc : r.nodeCall mode (defaultFlow flow) with
      | error e => simp only [hc]
      | ok call => simp [hm, hc, Except.toOption] at h

/-! ## The emitted steps -/

@[simp] theorem emitted_append (es es' : List (Effect X)) :
    emitted (es ++ es') = emitted es ++ emitted es' := by
  simp [emitted]

@[simp] theorem emitted_map_emit (ss : List Step) :
    emitted (ss.map (Effect.emit (X := X))) = ss := by
  induction ss with
  | nil => rfl
  | cons s ss ih => rw [List.map_cons]; exact congrArg (s :: ·) ih

@[simp] theorem emitted_emit (s : Step) : emitted [Effect.emit (X := X) s] = [s] := rfl

@[simp] theorem emitted_verify (pkg : X.Package) (opts : Options X.Confirmer) (rep : X.Report) :
    emitted [.verify pkg opts rep] = [] := rfl

theorem emitted_callRunFlow {r : Runner X} {post : NodeCall → NodeReply} {mode : Mode} {flow : String}
    {effs : List (Effect X)} {res : Except String (RunFlowResponse X.Package)}
    (h : r.callRunFlow post mode flow = (effs, res)) : emitted effs = [] := by
  have he : effs = _ := (congrArg Prod.fst h).symm.trans (callRunFlow_effects r post mode flow)
  rw [he]
  cases (r.nodeCall mode flow).toOption <;> rfl

/-- **What a run emits**: nothing, the failed step, or the whole narration of the returned package. -/
theorem RunOutcome.emitted_cases {r : Runner X} {post : NodeCall → NodeReply} {verifiedAt : String}
    {mode : Mode} {flow : String} {effs : List (Effect X)} {res : Except String (RunResult X)}
    (h : RunOutcome r post verifiedAt mode flow effs res) :
    (emitted effs = [] ∧ ∃ e, res = .error e) ∨
    (emitted effs = [runFailedStep] ∧ ∃ e, res = .error e) ∨
    ∃ pkg, emitted effs = narration X pkg := by
  cases h with
  | refused hm => exact .inl ⟨rfl, _, rfl⟩
  | callFailed hm hc => exact .inr (.inl ⟨by simp [emitted_callRunFlow hc], _, rfl⟩)
  | noPackage hm hc hp => exact .inr (.inl ⟨by simp [emitted_callRunFlow hc], _, rfl⟩)
  | @notEncoded _ _ pkg _ hm hc hp he => exact .inr (.inr ⟨pkg, by simp [emitted_callRunFlow hc]⟩)
  | @finished _ _ pkg _ hm hc hp he => exact .inr (.inr ⟨pkg, by simp [emitted_callRunFlow hc]⟩)

@[simp] theorem length_narration (pkg : X.Package) : (narration X pkg).length = 9 := by
  simp [narration, flowSteps]

/-- A run emits at most the nine steps of the narration. -/
theorem length_emitted_run_le (r : Runner X) (post : NodeCall → NodeReply) (verifiedAt : String)
    (mode : Mode) (flow : String) : (emitted (r.run post verifiedAt mode flow).1).length ≤ 9 := by
  rcases (run_outcome r post verifiedAt mode flow).emitted_cases with ⟨h, _⟩ | ⟨h, _⟩ | ⟨pkg, h⟩ <;>
    rw [h]
  · exact Nat.zero_le _
  · decide
  · exact Nat.le_of_eq (length_narration pkg)

/-- **What a run that succeeds returns**, field by field: the labels are the node's, the receipt comes from
    the verdict on the node's package. -/
theorem run_ok {r : Runner X} {post : NodeCall → NodeReply} {verifiedAt : String} {mode : Mode}
    {flow : String} {effs : List (Effect X)} {result : RunResult X}
    (h : r.run post verifiedAt mode flow = (effs, .ok result)) :
    ∃ call resp pkg, r.pendingCall mode flow = some call ∧ decodeReply X (post call) = .ok resp ∧
      resp.package = some pkg ∧ result.mode = mode ∧ result.proofLabel = resp.proofLabel ∧
      result.receipt = X.fromVerifyReport (X.verify pkg (r.verifyOptions mode))
        (convertOptions X mode resp verifiedAt) := by
  have hout := run_outcome r post verifiedAt mode flow
  rw [h] at hout
  cases hout with
  | @finished calls resp pkg _ hm hc hp he =>
      unfold Runner.callRunFlow at hc
      cases hn : r.nodeCall mode (defaultFlow flow) with
      | error e => rw [hn] at hc; cases hc
      | ok call =>
          rw [hn] at hc
          exact ⟨call, resp, pkg, pendingCall_eq_some.mpr ⟨hm, hn⟩, congrArg Prod.snd hc, hp, rfl, rfl,
            rfl⟩

/-! ## A failed run says why -/

theorem modeError_ne_empty {r : Runner X} {mode : Mode} {e : String} (h : r.modeError mode = some e) :
    e ≠ "" := by
  unfold Runner.modeError at h
  split at h
  · exact absurd h (by simp)
  · split at h
    · split at h
      · rw [← Option.some.inj h]; simp
      · exact absurd h (by simp)
    · rw [← Option.some.inj h]; exact GoText.append_ne_empty_left (by decide) _

theorem nodeCall_error_ne_empty {r : Runner X} {mode : Mode} {flow e : String}
    (h : r.nodeCall mode flow = .error e) : e ≠ "" := by
  unfold Runner.nodeCall at h
  split at h
  · rw [← Except.error.inj h]; decide
  · simp only at h
    split at h
    · rw [← Except.error.inj h]; exact GoText.append_ne_empty_left (by decide) _
    · split at h
      · rw [← Except.error.inj h]; exact GoText.append_ne_empty_left (by decide) _
      · exact absurd h (by simp)

theorem decodeReply_error_ne_empty {reply : NodeReply} {e : String}
    (h : decodeReply X reply = .error e) : e ≠ "" := by
  unfold decodeReply at h
  split at h
  · rw [← Except.error.inj h]; exact GoText.append_ne_empty_left (by decide) _
  · simp only at h
    split at h
    · split at h
      · split at h <;> rw [← Except.error.inj h] <;> exact GoText.append_ne_empty_left (by decide) _
      · rw [← Except.error.inj h]; exact GoText.append_ne_empty_left (by decide) _
    · split at h
      · rw [← Except.error.inj h]; exact GoText.append_ne_empty_left (by decide) _
      · exact absurd h (by simp)

theorem callRunFlow_error_ne_empty {r : Runner X} {post : NodeCall → NodeReply} {mode : Mode}
    {flow e : String} {effs : List (Effect X)} (h : r.callRunFlow post mode flow = (effs, .error e)) :
    e ≠ "" := by
  unfold Runner.callRunFlow at h
  cases hc : r.nodeCall mode flow with
  | error e' =>
      rw [hc] at h
      rw [← Except.error.inj (congrArg Prod.snd h)]
      exact nodeCall_error_ne_empty hc
  | ok call =>
      rw [hc] at h
      exact decodeReply_error_ne_empty (congrArg Prod.snd h)

/-- **A failed run says why.** No exit reports an empty error. -/
theorem RunOutcome.error_ne_empty {r : Runner X} {post : NodeCall → NodeReply} {verifiedAt : String}
    {mode : Mode} {flow : String} {effs : List (Effect X)} {e : String}
    (h : RunOutcome r post verifiedAt mode flow effs (.error e)) : e ≠ "" := by
  cases h with
  | refused hm => exact modeError_ne_empty hm
  | callFailed hm hc => exact callRunFlow_error_ne_empty hc
  | noPackage hm hc hp => decide
  | notEncoded hm hc hp he => exact GoText.append_ne_empty_left (by decide) _

/-! ## The closing step and the verdict it announces -/

/-- The package the node returns to this run, if the run gets one. -/
def Runner.returnedPackage (r : Runner X) (post : NodeCall → NodeReply) (mode : Mode)
    (flow : String) : Option X.Package :=
  match r.modeError mode, (r.callRunFlow post mode (defaultFlow flow)).2 with
  | none, .ok resp => resp.package
  | _, _ => none

theorem returnedPackage_eq_some {r : Runner X} {post : NodeCall → NodeReply} {mode : Mode}
    {flow : String} {pkg : X.Package} :
    r.returnedPackage post mode flow = some pkg ↔ r.modeError mode = none ∧
      ∃ effs resp, r.callRunFlow post mode (defaultFlow flow) = (effs, .ok resp) ∧
        resp.package = some pkg := by
  unfold Runner.returnedPackage
  rcases hc : r.callRunFlow post mode (defaultFlow flow) with ⟨effs, res⟩
  cases r.modeError mode <;> cases res <;> simp

/-- What a run that succeeds returns of the package: the one it got, and its text. -/
theorem run_ok_package {r : Runner X} {post : NodeCall → NodeReply} {verifiedAt : String} {mode : Mode}
    {flow : String} {effs : List (Effect X)} {result : RunResult X}
    (h : r.run post verifiedAt mode flow = (effs, .ok result)) :
    r.returnedPackage post mode flow = some result.package ∧
      X.marshalPackage result.package = .ok result.bundleJSON := by
  have hout := run_outcome r post verifiedAt mode flow
  rw [h] at hout
  cases hout with
  | finished hm hc hp he => exact ⟨returnedPackage_eq_some.mpr ⟨hm, _, _, hc, hp⟩, he⟩

/-- What a run emits before `Runner.Run` returns, and whether it may still succeed then. -/
inductive Emits (rn : Runner X) (post : NodeCall → NodeReply) (mode : Mode) (flow : String) :
    List Step → Bool → Prop where
  | refused (hm : rn.modeError mode ≠ none) : Emits rn post mode flow [] false
  | callFailed (hm : rn.modeError mode = none) (hp : rn.returnedPackage post mode flow = none) :
      Emits rn post mode flow [runFailedStep] false
  | narrated {pkg : X.Package} (hp : rn.returnedPackage post mode flow = some pkg) (ok : Bool) :
      Emits rn post mode flow (narration X pkg) ok

/-- Every exit of `Runner.Run` is one of these. -/
theorem RunOutcome.emits {rn : Runner X} {post : NodeCall → NodeReply} {verifiedAt : String} {mode : Mode}
    {flow : String} {effs : List (Effect X)} {res : Except String (RunResult X)}
    (h : RunOutcome rn post verifiedAt mode flow effs res) :
    Emits rn post mode flow (emitted effs) res.isOk := by
  cases h with
  | refused hm => exact .refused (by rw [hm]; nofun)
  | callFailed hm hc =>
      rw [emitted_append, emitted_callRunFlow hc]
      exact .callFailed hm (by rw [Runner.returnedPackage, hm, hc])
  | noPackage hm hc hp =>
      rw [emitted_append, emitted_callRunFlow hc]
      refine .callFailed hm ?_
      rw [Runner.returnedPackage, hm, hc]
      exact hp
  | notEncoded hm hc hp he =>
      rw [emitted_append, emitted_append, emitted_callRunFlow hc, emitted_map_emit, emitted_verify,
        List.nil_append, List.append_nil]
      exact .narrated (returnedPackage_eq_some.mpr ⟨hm, _, _, hc, hp⟩) _
  | finished hm hc hp he =>
      rw [emitted_append, emitted_append, emitted_callRunFlow hc, emitted_map_emit, emitted_verify,
        List.nil_append, List.append_nil]
      exact .narrated (returnedPackage_eq_some.mpr ⟨hm, _, _, hc, hp⟩) _

/-- A run that may still succeed may still fail. -/
theorem Emits.of_true {rn : Runner X} {post : NodeCall → NodeReply} {mode : Mode} {flow : String}
    {ss : List Step} (h : Emits rn post mode flow ss true) (ok : Bool) : Emits rn post mode flow ss ok := by
  cases h with
  | narrated hp => exact .narrated hp ok

/-- What `Runner.Run` leaves to emit when it returns. -/
theorem emits_of_run {rn : Runner X} {post : NodeCall → NodeReply} {verifiedAt : String} {mode : Mode}
    {flow : String} {effs : List (Effect X)} {res : Except String (RunResult X)}
    (hr : rn.run post verifiedAt mode flow = (effs, res)) :
    Emits rn post mode flow (emitted effs) res.isOk := by
  have hout := run_outcome rn post verifiedAt mode flow
  rw [hr] at hout
  exact hout.emits

/-- The promise of the `verify` step ("Verified independently"): whenever it is emitted complete, the
    verifier has already been called on the returned package and has found it verified. -/
def VerifiedFirst (r : Runner X) (post : NodeCall → NodeReply) (verifiedAt : String) (mode : Mode)
    (flow : String) : Prop :=
  ∀ before s after, (r.run post verifiedAt mode flow).1 = before ++ .emit s :: after →
    s.key = "verify" → s.status = .complete →
      ∃ pkg opts, r.returnedPackage post mode flow = some pkg ∧
        .verify pkg opts (X.verify pkg opts) ∈ before ∧ X.verified (X.verify pkg opts) = true

/-- The narration closes with the `verify` step, complete. -/
theorem narration_closes (pkg : X.Package) : ∃ ss s, narration X pkg = ss ++ [s] ∧
    s.key = "verify" ∧ s.status = .complete :=
  ⟨(narration X pkg).take 8, _, (List.take_append_drop 8 (narration X pkg)).symm, rfl, rfl⟩

/-- With a package in hand, the whole narration goes out before the verifier is called. -/
theorem run_effects_of_package {r : Runner X} {post : NodeCall → NodeReply} {mode : Mode}
    {flow : String} {pkg : X.Package} (h : r.returnedPackage post mode flow = some pkg)
    (verifiedAt : String) : ∃ calls verdict : List (Effect X),
      (r.run post verifiedAt mode flow).1 = calls ++ (narration X pkg).map .emit ++ verdict ∧
      ∀ eff ∈ calls, ∃ call, eff = .callNode call := by
  obtain ⟨hm, effs, resp, hc, hp⟩ := returnedPackage_eq_some.mp h
  refine ⟨effs, [.verify pkg (r.verifyOptions mode) (X.verify pkg (r.verifyOptions mode))], ?_, ?_⟩
  · cases he : X.marshalPackage pkg <;> simp only [Runner.run, hm, hc, hp, he]
  · intro eff heff
    have hcalls := callRunFlow_effects r post mode (defaultFlow flow)
    rw [hc] at hcalls
    rw [show effs = _ from hcalls, List.mem_map] at heff
    obtain ⟨call, _, rfl⟩ := heff
    exact ⟨call, rfl⟩

/-- A run that gets a package announces its verdict before it has one. -/
theorem not_verifiedFirst_of_package {r : Runner X} {post : NodeCall → NodeReply} {mode : Mode}
    {flow : String} {pkg : X.Package} (h : r.returnedPackage post mode flow = some pkg)
    (verifiedAt : String) : ¬ VerifiedFirst r post verifiedAt mode flow := by
  intro hv
  obtain ⟨calls, verdict, heffs, hcalls⟩ := run_effects_of_package h verifiedAt
  obtain ⟨ss, s, hss, hkey, hstatus⟩ := narration_closes pkg
  have hsplit : (r.run post verifiedAt mode flow).1
      = (calls ++ ss.map .emit) ++ .emit s :: verdict := by
    rw [heffs, hss, List.map_append, List.map_singleton]
    simp only [List.append_assoc, List.singleton_append]
  obtain ⟨pkg', opts, _, hmem, _⟩ := hv _ _ _ hsplit hkey hstatus
  rcases List.mem_append.mp hmem with hm | hm
  · obtain ⟨call, hc⟩ := hcalls _ hm
    exact absurd hc (by simp)
  · obtain ⟨s', _, hs'⟩ := List.mem_map.mp hm
    exact absurd hs' (by simp)

/-- A runner against a stand-in node whose package does not verify. -/
def sampleRunner : Runner (.sample fun _ => .ok (sampleResponse "L3" [])) :=
  .new _ "http://127.0.0.1:8080" false

/-- An anonymous run on a package that does not verify: the node answers 200 with an empty payload. -/
theorem verify_step_before_verdict :
    ¬ VerifiedFirst sampleRunner (fun _ => .answered 200 [0x7B, 0x7D]) "2024-01-01T00:00:00Z"
      modeAnonymous flowGoldenEscrow := by
  have h : sampleRunner.returnedPackage (fun _ => .answered 200 [0x7B, 0x7D]) modeAnonymous
      flowGoldenEscrow = some (⟨padHash [], []⟩ : SamplePackage) := by rfl
  exact not_verifiedFirst_of_package h _

/-- **When the `verify` step keeps its promise**: exactly when the run gets no package to narrate. With
    a package it is emitted complete before the verifier is called, whatever the verdict will be. -/
theorem verifiedFirst_iff (r : Runner X) (post : NodeCall → NodeReply) (verifiedAt : String)
    (mode : Mode) (flow : String) :
    VerifiedFirst r post verifiedAt mode flow ↔ r.returnedPackage post mode flow = none := by
  constructor
  · intro hv
    cases h : r.returnedPackage post mode flow with
    | none => rfl
    | some pkg => exact absurd hv (not_verifiedFirst_of_package h verifiedAt)
  · intro h before s after hsplit hkey _
    have hs : s ∈ emitted (r.run post verifiedAt mode flow).1 := by
      rw [hsplit, emitted_append]
      exact List.mem_append_right _ (List.mem_cons_self ..)
    -- without a package at most the failed step is emitted, and its key is another one
    have hfailed : s = runFailedStep := by
      have hemits := (run_outcome r post verifiedAt mode flow).emits
      generalize emitted (r.run post verifiedAt mode flow).1 = ss at hs hemits
      generalize (r.run post verifiedAt mode flow).2.isOk = ok at hemits
      cases hemits with
      | refused hm => exact absurd hs List.not_mem_nil
      | callFailed hm hp => exact List.mem_singleton.mp hs
      | narrated hp => rw [h] at hp; cases hp
    rw [hfailed] at hkey
    exact absurd hkey (by decide)

end Worker
end InfrixPlayground
