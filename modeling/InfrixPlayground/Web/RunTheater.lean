import InfrixPlayground.Api.RunHistory

/-!
# `Web.RunTheater` — how the page of a run consumes its events

`startRun` opens the event stream of the run it started and takes the frames one by one: a stage moves the
spine on, and the first decisive frame ends the loop. `react` is one round of that loop, `consume` the loop
over frames delivered in order. A run that got no package announces its failure in a step before it says
why, and that step is decisive: `failure_reported_iff`.
-/

namespace InfrixPlayground
namespace Web

open Api Worker Machine

variable {X : Externals}

/-! ## Frames -/

/-- A frame of the event stream as `JSON.parse` gives it; a step without a hash has an empty one. The page does
    not read its `state`. -/
structure Frame where
  type : String
  state : Option String
  step : Option Step
  receiptId : Option String
  error : Option String

/-- A text field with `omitempty`. -/
def omitEmpty (s : String) : Option String := if s = "" then none else some s

/-- `data: <json>` for an event of a run. -/
def frameOf : Event → Frame
  | .state next => { type := "state", state := some next.name, step := none, receiptId := none, error := none }
  | .step s => { type := "step", state := none, step := some s, receiptId := none, error := none }
  | .done receiptID =>
    { type := "done"
      state := some RunState.complete.name
      step := none
      receiptId := omitEmpty receiptID
      error := none }
  | .error msg =>
    { type := "error"
      state := some RunState.failed.name
      step := none
      receiptId := none
      error := omitEmpty msg }

/-- The whole of a history, in order. -/
def frames (history : List Event) : List Frame := history.map frameOf

/-- What `onerror` pushes when the stream breaks or ends. -/
def sseError : Frame := { type := "__sse_error", state := none, step := none, receiptId := none, error := none }

/-! ## The consumer -/

/-- What the consumer does to the page, to its stream and to the telemetry collector. -/
inductive Act where
  | close
  | spine (key : String) (state : String) (hash : String)
  | card (title : String) (hash : String) (desc : String)
  | telemetry (event : String) (mode : String) (result : String)
  | failRun (msg : Option String)
  | seal
  | navigate (hash : String)
deriving DecidableEq, Repr

/-- What `startRun` knows of the run: its mode, and the stages with their labels. -/
structure Theater where
  mode : String
  steps : List (String × String)

/-- The stages to show when the server's answer names none. -/
def skeletonSteps : List (String × String) :=
  [ ("intent", "Buyer submits escrow intent"),
    ("plan", "Infrix compiles a governed plan"),
    ("policy", "Policy authorizes a regulated release"),
    ("approval", "Operator approval bound to the plan hash"),
    ("credential", "Delivery credential verified"),
    ("outcome", "Funds released to the seller"),
    ("anchor", "Evidence anchored"),
    ("export", "Portable proof exported"),
    ("verify", "Verified independently (no node trust)") ]

/-- The page and the worker name the stages alike. -/
theorem skeletonSteps_eq : skeletonSteps = flowSteps.map fun s => (s.key, s.label) := rfl

namespace Theater

/-- The page of a run, from the server's answer. -/
def new (mode : String) (steps : List Step) : Theater :=
  { mode := mode
    steps := if steps.isEmpty then skeletonSteps else steps.map fun s => (s.key, s.label) }

/-- `a || b`. -/
def orElse (a : Option String) (b : String) : String :=
  match a with
  | none => b
  | some s => if s = "" then b else s

/-- `labelByKey[key]`: a later stage of the same key wins. -/
def labelByKey (th : Theater) (key : String) : Option String := th.steps.reverse.lookup key

/-- The mode as the telemetry has it. -/
def telemetryMode (th : Theater) : String := if th.mode = "kermit" then "kermit" else "local"

/-- `swapCard`. -/
def swapCard (th : Theater) (st : Step) (phase : String) : Act :=
  .card (orElse (th.labelByKey st.key) (orElse (some st.label) st.key))
    (if st.hash ≠ "" then "hash " ++ st.hash ++ "…" else "")
    (if phase = "complete" then
      if st.hash ≠ "" then "Hash-linked into the tamper-evident chain." else "Recorded in the proof."
    else "Running…")

/-- One round of the loop. -/
inductive Reaction where
  | ignore
  /-- A stage: its two halves, with a pause after each. -/
  | stage (running : List Act) (complete : List Act)
  /-- A decisive frame. -/
  | stop (acts : List Act)

/-- What the consumer makes of a frame. -/
def react (th : Theater) (e : Frame) : Reaction :=
  match e.type, e.step, e.receiptId with
  | "step", some st, _ =>
    if st.status = .failed then
      .stop [.close, .spine st.key "failed" "",
        .failRun (some ("Stage “" ++ orElse (th.labelByKey st.key) st.key ++ "” failed."))]
    else
      .stage [.spine st.key "running" "", th.swapCard st "running"]
        [.spine st.key "complete" st.hash, th.swapCard st "complete"]
  | "done", _, some receiptId =>
    if receiptId ≠ "" then
      .stop [.close, .card "Proof sealed" "" "Verified independently — opening the verdict.",
        .telemetry "demo.completed" th.telemetryMode "success", .seal, .navigate ("#/r/" ++ receiptId)]
    else .ignore
  | "error", _, _ =>
    .stop [.close, .telemetry "error.step" th.telemetryMode "failure", .failRun e.error]
  | "__sse_error", _, _ => .stop [.close, .failRun (some "The connection to the run was lost.")]
  -- "state" and any unknown event types are ignored
  | _, _, _ => .ignore

/-- The loop, over frames that arrive in order: what it does, and whether it has ended. -/
def consume (th : Theater) : List Frame → List Act × Bool
  | [] => ([], false)
  | e :: es =>
    match th.react e with
    | .ignore => th.consume es
    | .stage running complete => (running ++ complete ++ (th.consume es).1, (th.consume es).2)
    | .stop acts => (acts, true)

end Theater

/-! ## What the consumer makes of the frames of a run -/

/-- An `error.step` event. -/
def Act.isErrorStep : Act → Bool
  | .telemetry event _ _ => event == "error.step"
  | _ => false

namespace Theater

/-- What the consumer does for a stage. -/
def stageActs (th : Theater) (st : Step) : List Act :=
  [.spine st.key "running" "", th.swapCard st "running"] ++
    [.spine st.key "complete" st.hash, th.swapCard st "complete"]

/-- What it does for an error event. -/
def errorActs (th : Theater) (msg : String) : List Act :=
  [.close, .telemetry "error.step" th.telemetryMode "failure", .failRun (omitEmpty msg)]

theorem consume_state (th : Theater) (next : RunState) (es : List Frame) :
    th.consume (frameOf (.state next) :: es) = th.consume es := rfl

theorem consume_error (th : Theater) (msg : String) (es : List Frame) :
    th.consume (frameOf (.error msg) :: es) = (th.errorActs msg, true) := rfl

/-- Stages that did not fail. -/
theorem consume_steps (th : Theater) (es : List Frame) : ∀ ss : List Step, (∀ s ∈ ss, s.status ≠ .failed) →
    th.consume (frames (ss.map .step) ++ es)
      = (ss.flatMap th.stageActs ++ (th.consume es).1, (th.consume es).2) := by
  intro ss
  induction ss with
  | nil => intro _; rfl
  | cons s ss ih =>
      intro hok
      have hreact : th.react (frameOf (.step s)) =
          .stage [.spine s.key "running" "", th.swapCard s "running"]
            [.spine s.key "complete" s.hash, th.swapCard s "complete"] :=
        if_neg (hok s List.mem_cons_self)
      rw [List.map_cons, frames, List.map_cons, List.cons_append, consume, hreact]
      replace ih := ih fun s' hs' => hok s' (List.mem_cons_of_mem _ hs')
      rw [frames] at ih
      simp only [ih]
      show (th.stageActs s ++ (_ ++ _), _) = _
      rw [← List.append_assoc]
      rfl

/-- No stage reports an error to the collector. -/
theorem countP_stages (th : Theater) (ss : List Step) :
    (ss.flatMap th.stageActs).countP Act.isErrorStep = 0 := by
  induction ss with
  | nil => rfl
  | cons s ss ih => rw [List.flatMap_cons, List.countP_append, ih]; rfl

/-- The consumer ends by saying why the run failed, after one `error.step` event. -/
def Reports (th : Theater) (es : List Frame) (msg : String) : Prop :=
  (th.consume es).2 = true ∧ (th.consume es).1.getLast? = some (.failRun (some msg)) ∧
    (th.consume es).1.countP Act.isErrorStep = 1

instance (th : Theater) (es : List Frame) (msg : String) : Decidable (th.Reports es msg) :=
  inferInstanceAs (Decidable (_ ∧ _ ∧ _))

/-- **Without a failed step** the error event is the first decisive frame. -/
theorem reports_of_steps (th : Theater) {ss : List Step} (hok : ∀ s ∈ ss, s.status ≠ .failed) {msg : String}
    (hmsg : msg ≠ "") (more : List Frame) :
    th.Reports (frames (.state .running :: ss.map .step ++ [.state .failed, .error msg]) ++ more) msg := by
  have hconsume : th.consume
      (frames (.state .running :: ss.map .step ++ [.state .failed, .error msg]) ++ more)
        = (ss.flatMap th.stageActs ++ th.errorActs msg, true) := by
    have hsplit : frames (.state .running :: ss.map .step ++ [.state .failed, .error msg]) ++ more
        = frameOf (.state .running) :: (frames (ss.map .step) ++
            (frameOf (.state .failed) :: frameOf (.error msg) :: more)) := by
      simp [frames]
    rw [hsplit, consume_state, consume_steps th _ ss hok, consume_state, consume_error]
  refine ⟨by rw [hconsume], ?_, ?_⟩
  · rw [hconsume]
    have homit : omitEmpty msg = some msg := if_neg hmsg
    rw [errorActs, homit]
    exact List.getLast?_append_of_ne_nil _ (by simp)
  · rw [hconsume, List.countP_append, countP_stages]
    rfl

/-- **With the failed step in front** the loop ends before the reason arrives. -/
theorem not_reports_of_runFailed (th : Theater) (msg : String) (more : List Frame) :
    ¬ th.Reports (frames [.state .running, .step runFailedStep, .state .failed, .error msg] ++ more) msg := by
  rintro ⟨_, _, hcount⟩
  have hnone : (th.consume (frames [.state .running, .step runFailedStep, .state .failed, .error msg] ++
      more)).1.countP Act.isErrorStep = 0 := rfl
  rw [hnone] at hcount
  cases hcount

end Theater

/-! ## The runs of a server -/

/-- **A failed run's reason reaches the visitor exactly when no failed step is in its way.** At any moment of
    a manager, take a run whose history holds an error event, and let the page of the run be given the whole
    history in order, and whatever comes after it. The page ends with that message, and one `error.step`
    event, exactly if the run's mode was refused or the node answered it with a package. -/
theorem failure_reported_iff (th : Theater) (rn : Runner X) (store : ReceiptStore X)
    {as : List ManagerAction} {m : RunManager X}
    (h : exec RunManager.step (newRunManager rn store) as = some m) {id : String} {t : Task X}
    (hl : m.runs.lookup id = some t) {msg : String} (hfailed : .error msg ∈ t.run.history)
    (more : List Frame) :
    th.Reports (frames t.run.history ++ more) msg ↔
      rn.modeError t.run.mode ≠ none ∨ rn.returnedPackage t.post t.run.mode t.run.flow ≠ none := by
  have ht := (allRuns_exec (onCourse_ofRun rn) (fun hi hs => hi.step hs) h).runs id t hl
  obtain ⟨ss, hemits, hhistory, hmsg⟩ := ht.failed hfailed
  rw [hhistory]
  cases hemits with
  | refused hm =>
      exact ⟨fun _ => .inl hm,
        fun _ => th.reports_of_steps (fun _ hs => absurd hs List.not_mem_nil) hmsg more⟩
  | callFailed hm hp =>
      refine ⟨fun hr => absurd hr (th.not_reports_of_runFailed msg more), ?_⟩
      rintro (hne | hne)
      · exact absurd hm hne
      · exact absurd hp hne
  | narrated hp =>
      refine ⟨fun _ => .inr (by rw [hp]; nofun), fun _ => th.reports_of_steps (fun s hs => ?_) hmsg more⟩
      obtain ⟨s', _, rfl⟩ := List.mem_map.mp hs
      nofun

/-- The page of an anonymous run. -/
def sampleTheater : Theater := .new "anonymous" flowSteps

/-- What an anonymous run and its manager do to its end: the node's answer, then what the goroutine does
    before `finishErr`. -/
def failedActions (reply : NodeReply) (rest : List RunAction) : List ManagerAction :=
  let start : List RunAction := [.count, .launch, .call, .reply reply "2024-01-01T00:00:00Z"]
  [.number modeAnonymous "", .register 0] ++
    (start ++ rest ++ List.replicate 3 RunAction.finish).map (.run "run-1")

/-- The disk refuses the record of a run that got its package, and the visitor is told. -/
theorem failure_reported_sample : ∃ m t,
    exec RunManager.step (newRunManager sampleNode { dir := "receipts", runs := ∅ })
      (failedActions (.answered 200 [0x7B, 0x7D])
        (List.replicate 9 .emit ++ [.settle, .insert 1, .persist (some "disk full")])) = some m ∧
    m.runs.lookup "run-1" = some t ∧ .error "could not store run: disk full" ∈ t.run.history ∧
    sampleTheater.Reports (frames t.run.history ++ [sseError]) "could not store run: disk full" := by
  have hrun : (exec RunManager.step (newRunManager sampleNode { dir := "receipts", runs := ∅ })
      (failedActions (.answered 200 [0x7B, 0x7D])
        (List.replicate 9 .emit ++ [.settle, .insert 1, .persist (some "disk full")]))).map
      (fun m => (m.runs.lookup "run-1").map fun t =>
        (decide (.error "could not store run: disk full" ∈ t.run.history),
          (sampleNode.returnedPackage t.post t.run.mode t.run.flow).isSome)) = some (some (true, true)) := by
    decide +kernel
  obtain ⟨m, hm, hlookup⟩ := Option.map_eq_some_iff.mp hrun
  obtain ⟨t, ht, hpair⟩ := Option.map_eq_some_iff.mp hlookup
  obtain ⟨hfailed, hpkg⟩ := Prod.mk.inj hpair
  have hmem := of_decide_eq_true hfailed
  have hne : sampleNode.returnedPackage t.post t.run.mode t.run.flow ≠ none := by
    intro hnone; rw [hnone] at hpkg; cases hpkg
  exact ⟨m, t, hm, ht, hmem,
    (failure_reported_iff sampleTheater sampleNode _ hm ht hmem [sseError]).mpr (.inr hne)⟩

/-- The node cannot be reached: the visitor reads that a stage failed, and the collector hears nothing. -/
theorem failure_not_reported : ∃ m t,
    exec RunManager.step (newRunManager sampleNode { dir := "", runs := ∅ })
      (failedActions (.failed "connection refused") [.emit, .settle]) = some m ∧
    m.runs.lookup "run-1" = some t ∧
    .error "playground: call run-flow endpoint: connection refused" ∈ t.run.history ∧
    ¬ sampleTheater.Reports (frames t.run.history)
      "playground: call run-flow endpoint: connection refused" := by
  have hrun : (exec RunManager.step (newRunManager sampleNode { dir := "", runs := ∅ })
      (failedActions (.failed "connection refused") [.emit, .settle])).map
      (fun m => (m.runs.lookup "run-1").map fun t =>
        (decide (.error "playground: call run-flow endpoint: connection refused" ∈ t.run.history),
          decide (sampleTheater.Reports (frames t.run.history)
            "playground: call run-flow endpoint: connection refused"))) = some (some (true, false)) := by
    decide +kernel
  obtain ⟨m, hm, hlookup⟩ := Option.map_eq_some_iff.mp hrun
  obtain ⟨t, ht, hpair⟩ := Option.map_eq_some_iff.mp hlookup
  obtain ⟨hfailed, hreports⟩ := Prod.mk.inj hpair
  exact ⟨m, t, hm, ht, of_decide_eq_true hfailed, of_decide_eq_false hreports⟩

end Web
end InfrixPlayground
