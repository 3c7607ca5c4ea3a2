import InfrixPlayground.Api.RunManager

/-!
# `Api.RunHistory` — the one protocol every run's history follows

A run's history is written by `Start`, by each exit of `Runner.Run`, by `execute`'s store-failure path and
by the three critical sections of `finishOK` and `finishErr`. `Protocol` lists the four histories that come
out of it; `Task.OnCourse` says how far a run has got in which of them at each point of its goroutine, and
what the node's answer has to do with it.
-/

namespace InfrixPlayground
namespace Api

open Worker Machine

variable {X : Externals}

/-! ## The protocol -/

/-- The steps of `FlowSteps()`, in order, each complete; only the hashes are the package's. -/
def Narrates (ss : List Step) : Prop :=
  ss.map (fun s => (s.key, s.label, s.status))
    = flowSteps.map (fun s => (s.key, s.label, StepStatus.complete))

/-- The histories of the runs that are over. -/
inductive Protocol : List Event → Prop where
  | refused (msg : String) : Protocol [.state .running, .state .failed, .error msg]
  | callFailed (msg : String) :
      Protocol [.state .running, .step runFailedStep, .state .failed, .error msg]
  | failedLate {ss : List Step} (hs : Narrates ss) (msg : String) :
      Protocol (.state .running :: ss.map .step ++ [.state .failed, .error msg])
  | completed {ss : List Step} (hs : Narrates ss) (receiptID : String) :
      Protocol (.state .running :: ss.map .step ++ [.state .complete, .done receiptID])

/-- The steps among some events. -/
def stepsOf (history : List Event) : List Step :=
  history.filterMap fun
    | .step s => some s
    | _ => none

@[simp] theorem stepsOf_append (h h' : List Event) : stepsOf (h ++ h') = stepsOf h ++ stepsOf h' :=
  List.filterMap_append ..

@[simp] theorem stepsOf_step (s : Step) : stepsOf [.step s] = [s] := rfl

@[simp] theorem stepsOf_state (next : RunState) : stepsOf [.state next] = [] := rfl

@[simp] theorem stepsOf_final (out : Except String String) : stepsOf [Run.finalEvent out] = [] := by
  cases out <;> rfl

theorem narrates_narration (pkg : X.Package) : Narrates (narration X pkg) := by
  unfold Narrates narration
  rw [List.map_map]
  rfl

/-- No stage of a narration failed. -/
theorem Narrates.not_failed {ss : List Step} (h : Narrates ss) : ∀ s ∈ ss, s.status ≠ .failed := by
  intro s hs hfailed
  have hmem : (s.key, s.label, s.status) ∈ flowSteps.map fun s => (s.key, s.label, StepStatus.complete) :=
    h ▸ List.mem_map.mpr ⟨s, hs, rfl⟩
  obtain ⟨s', _, heq⟩ := List.mem_map.mp hmem
  rw [hfailed] at heq
  cases (Prod.mk.inj (Prod.mk.inj heq).2).2

/-! ## What a run emits -/

/-- What the node answered this run; a run that sends no request is never answered. -/
def Task.post (t : Task X) : NodeCall → NodeReply := fun _ => t.answer.getD (.failed "")

/-- **The history of a run that is over**, from what it emitted and how it ended. -/
theorem protocol_of_emits {rn : Runner X} {post : NodeCall → NodeReply} {mode : Mode} {flow : String}
    {ss : List Step} {out : Except String String} (h : Emits rn post mode flow ss out.isOk) :
    Protocol (.state .running :: ss.map .step ++ [.state (Run.finalState out), Run.finalEvent out]) := by
  cases out with
  | ok receiptID =>
      cases h with
      | narrated hp => exact .completed (narrates_narration _) receiptID
  | error msg =>
      cases h with
      | refused hm => exact .refused msg
      | callFailed hm hp => exact .callFailed msg
      | narrated hp => exact .failedLate (narrates_narration _) msg

/-! ## The invariant -/

/-- What `finishOK` or `finishErr` has published before this critical section. -/
def closing (out : Except String String) : Phase → List Event
  | .result => []
  | .state => []
  | .publish => [.state (Run.finalState out)]
  | .ended => [.state (Run.finalState out), Run.finalEvent out]

/-- How far the history has got while the goroutine stands here. -/
def Task.Course (rn : Runner X) (t : Task X) : Prop :=
  match t.ctl with
  | .registered => t.answer = none ∧ t.run.history = []
  | .counted => t.answer = none ∧ t.run.history = []
  | .executing => t.answer = none ∧ t.run.history = [.state .running]
  | .waiting _ => t.answer = none ∧ t.run.history = [.state .running]
  | .emitting todo res => ∃ ss, Emits rn t.post t.run.mode t.run.flow (ss ++ todo) res.isOk ∧
      t.run.history = .state .running :: ss.map .step
  | .storing _ => ∃ ss, Emits rn t.post t.run.mode t.run.flow ss true ∧
      t.run.history = .state .running :: ss.map .step
  | .persisting _ => ∃ ss, Emits rn t.post t.run.mode t.run.flow ss true ∧
      t.run.history = .state .running :: ss.map .step
  | .finishing out phase => ∃ ss, Emits rn t.post t.run.mode t.run.flow ss out.isOk ∧
      t.run.history = .state .running :: ss.map .step ++ closing out phase

/-- **The invariant of the history.** -/
structure Task.OnCourse (rn : Runner X) (t : Task X) : Prop where
  consistent : Consistent t
  steps : t.run.steps = stepsOf t.run.history
  course : t.Course rn

theorem onCourse_ofRun (rn : Runner X) (id : String) (mode : Mode) (flow : String) :
    (Task.ofRun (.new id mode flow) : Task X).OnCourse rn :=
  ⟨consistent_ofRun id mode flow, rfl, rfl, rfl⟩

/-- A transition to a state that can be entered publishes it and nothing else. -/
theorem transition_history {r : Run} (next : RunState) (h : r.state.canTransition next = true) :
    (r.transition next).1.history = r.history ++ [.state next] ∧
      (r.transition next).1.steps = r.steps := by
  rw [Run.transition_of_can h]
  exact ⟨rfl, rfl⟩

/-- **Every step of a run keeps it on course.** -/
theorem Task.OnCourse.step {rn : Runner X} {t t' : Task X} {a : RunAction} (h : t.OnCourse rn)
    (hs : TaskStep rn t a t') : t'.OnCourse rn := by
  have hconsistent := h.consistent.step hs
  have hstate := h.consistent.state
  have hsteps := h.steps
  have hcourse := h.course
  have hask := hs.asked
  unfold Task.Course at hcourse
  cases hs with
  | count hc =>
      rw [hc] at hcourse
      exact ⟨hconsistent, hsteps, hcourse⟩
  | launch hc =>
      rw [hc] at hcourse hstate
      obtain ⟨hhistory, hkept⟩ := transition_history (r := t.run) .running (by rw [hstate]; rfl)
      refine ⟨hconsistent, ?_, hcourse.1, ?_⟩
      · rw [hkept, hhistory, stepsOf_append, stepsOf_state, List.append_nil, hsteps]
      · rw [hhistory, hcourse.2]
        rfl
  | call hc hp =>
      rw [hc] at hcourse
      exact ⟨hconsistent, hsteps, hcourse⟩
  | @refuse effs res hc hp hr =>
      rw [hc] at hcourse
      refine ⟨hconsistent, hsteps, [], ?_, hcourse.2⟩
      have hpost : t.post = fun _ => .failed "" := by unfold Task.post; rw [hcourse.1]; rfl
      show Emits rn t.post _ _ _ _
      rw [hpost]
      exact emits_of_run hr
  | reply hc hr =>
      rw [hc] at hcourse
      exact ⟨hconsistent, hsteps, [], emits_of_run hr, hcourse.2⟩
  | @emit s todo res hc =>
      rw [hc] at hcourse
      obtain ⟨ss, hemits, hhistory⟩ := hcourse
      refine ⟨hconsistent, ?_, ss ++ [s], ?_, ?_⟩
      · show t.run.steps ++ [s] = stepsOf (t.run.history ++ [.step s])
        rw [stepsOf_append, stepsOf_step, hsteps]
      · rw [List.append_assoc]
        exact hemits
      · show t.run.history ++ [.step s] = _
        rw [hhistory, List.map_append]
        rfl
  | runFailed hc =>
      rw [hc] at hcourse
      obtain ⟨ss, hemits, hhistory⟩ := hcourse
      rw [List.append_nil] at hemits
      exact ⟨hconsistent, hsteps, ss, hemits, by rw [closing, List.append_nil]; exact hhistory⟩
  | runReturned hc =>
      rw [hc] at hcourse
      obtain ⟨ss, hemits, hhistory⟩ := hcourse
      rw [List.append_nil] at hemits
      exact ⟨hconsistent, hsteps, ss, hemits, hhistory⟩
  | putRefused hc hp =>
      rw [hc] at hcourse
      obtain ⟨ss, hemits, hhistory⟩ := hcourse
      exact ⟨hconsistent, hsteps, ss, hemits.of_true _, by rw [closing, List.append_nil]; exact hhistory⟩
  | inserted hc hp =>
      rw [hc] at hcourse
      exact ⟨hconsistent, hsteps, hcourse⟩
  | returned hc =>
      rw [hc] at hcourse
      obtain ⟨ss, hemits, hhistory⟩ := hcourse
      exact ⟨hconsistent, hsteps, ss, hemits, by rw [closing, List.append_nil]; exact hhistory⟩
  | notPersisted hc =>
      rw [hc] at hcourse
      obtain ⟨ss, hemits, hhistory⟩ := hcourse
      exact ⟨hconsistent, hsteps, ss, hemits.of_true _, by rw [closing, List.append_nil]; exact hhistory⟩
  | @setResult out hc =>
      rw [hc] at hcourse
      obtain ⟨ss, hemits, hhistory⟩ := hcourse
      cases out <;> exact ⟨hconsistent, hsteps, ss, hemits, hhistory⟩
  | @setState out hc =>
      rw [hc] at hcourse hstate
      obtain ⟨ss, hemits, hhistory⟩ := hcourse
      obtain ⟨hnew, hkept⟩ := transition_history (r := t.run) (Run.finalState out)
        (by rw [hstate]; exact Run.canTransition_final out)
      refine ⟨hconsistent, ?_, ss, ?_, ?_⟩
      · rw [hkept, hnew, stepsOf_append, stepsOf_state, List.append_nil, hsteps]
      · show Emits rn t.post _ _ _ _
        rw [hask.1, hask.2]
        exact hemits
      · rw [hnew, hhistory, closing, List.append_nil]
        rfl
  | @publish out hc =>
      rw [hc] at hcourse
      obtain ⟨ss, hemits, hhistory⟩ := hcourse
      refine ⟨hconsistent, ?_, ss, hemits, ?_⟩
      · show t.run.steps = stepsOf (t.run.history ++ [Run.finalEvent out])
        rw [stepsOf_append, stepsOf_final, List.append_nil, hsteps]
      · show t.run.history ++ [Run.finalEvent out] = _
        rw [hhistory, List.append_assoc]
        rfl
  | subscribe =>
      obtain ⟨s, heq⟩ := t.run.subscribe_eq
      rw [heq] at hconsistent ⊢
      exact ⟨hconsistent, hsteps, hcourse⟩
  | unsub => exact ⟨hconsistent, hsteps, hcourse⟩
  | recv => exact ⟨hconsistent, hsteps, hcourse⟩

/-! ## The protocol of every run -/

/-- A run that may still end either way ends in a protocol. -/
theorem extends_of_emits {rn : Runner X} {post : NodeCall → NodeReply} {mode : Mode} {flow : String}
    {ss : List Step} (todo : List Step) {ok : Bool} (h : Emits rn post mode flow (ss ++ todo) ok) :
    ∃ history, Protocol history ∧ .state .running :: ss.map .step <+: history := by
  have hfailed : Emits rn post mode flow (ss ++ todo) (Except.isOk (.error "" : Except String String)) := by
    cases ok with
    | false => exact h
    | true => exact h.of_true false
  refine ⟨_, protocol_of_emits hfailed, ?_⟩
  rw [List.map_append]
  exact ⟨todo.map .step ++ [.state .failed, .error ""], by simp [Run.finalState, Run.finalEvent]⟩

/-- **What the history of a run on course extends to.** -/
theorem Task.OnCourse.extends {rn : Runner X} {t : Task X} (h : t.OnCourse rn) :
    ∃ history, Protocol history ∧ t.run.history <+: history := by
  have hcourse := h.course
  unfold Task.Course at hcourse
  split at hcourse
  · exact ⟨_, .refused "", by rw [hcourse.2]; exact List.nil_prefix⟩
  · exact ⟨_, .refused "", by rw [hcourse.2]; exact List.nil_prefix⟩
  · exact ⟨_, .refused "", by rw [hcourse.2]; exact ⟨_, rfl⟩⟩
  · exact ⟨_, .refused "", by rw [hcourse.2]; exact ⟨_, rfl⟩⟩
  · obtain ⟨ss, hemits, hhistory⟩ := hcourse
    rw [hhistory]
    exact extends_of_emits _ hemits
  · obtain ⟨ss, hemits, hhistory⟩ := hcourse
    rw [hhistory]
    exact extends_of_emits [] (by rw [List.append_nil]; exact hemits)
  · obtain ⟨ss, hemits, hhistory⟩ := hcourse
    rw [hhistory]
    exact extends_of_emits [] (by rw [List.append_nil]; exact hemits)
  · rename_i out phase hc
    obtain ⟨ss, hemits, hhistory⟩ := hcourse
    refine ⟨_, protocol_of_emits hemits, ?_⟩
    rw [hhistory, List.prefix_append_right_inj]
    cases phase with
    | result => exact List.nil_prefix
    | state => exact List.nil_prefix
    | publish => exact ⟨_, rfl⟩
    | ended => exact List.prefix_refl _

/-- **A run that is over has gone through the protocol.** -/
theorem Task.OnCourse.ended {rn : Runner X} {t : Task X} (h : t.OnCourse rn)
    {out : Except String String} (hc : t.ctl = .finishing out .ended) : Protocol t.run.history := by
  have hcourse := h.course
  unfold Task.Course at hcourse
  rw [hc] at hcourse
  obtain ⟨ss, hemits, hhistory⟩ := hcourse
  rw [hhistory]
  exact protocol_of_emits hemits

/-- Nothing that a run emits is an error event. -/
theorem not_mem_emitted {ss : List Step} {msg : String} :
    .error msg ∉ (.state .running :: ss.map .step : List Event) := by
  intro hmem
  rcases List.mem_cons.mp hmem with he | hmem
  · cases he
  · obtain ⟨s, _, hs⟩ := List.mem_map.mp hmem
    cases hs

/-- **The history of a run that failed**, told by its error event: what it emitted, the state, the error. -/
theorem Task.OnCourse.failed {rn : Runner X} {t : Task X} (h : t.OnCourse rn) {msg : String}
    (hmem : .error msg ∈ t.run.history) :
    ∃ ss, Emits rn t.post t.run.mode t.run.flow ss false ∧
      t.run.history = .state .running :: ss.map .step ++ [.state .failed, .error msg] ∧ msg ≠ "" := by
  have hcourse := h.course
  unfold Task.Course at hcourse
  split at hcourse
  · rw [hcourse.2] at hmem; cases hmem
  · rw [hcourse.2] at hmem; cases hmem
  · rw [hcourse.2] at hmem; cases List.mem_singleton.mp hmem
  · rw [hcourse.2] at hmem; cases List.mem_singleton.mp hmem
  · obtain ⟨ss, _, hhistory⟩ := hcourse
    rw [hhistory] at hmem; exact absurd hmem not_mem_emitted
  · obtain ⟨ss, _, hhistory⟩ := hcourse
    rw [hhistory] at hmem; exact absurd hmem not_mem_emitted
  · obtain ⟨ss, _, hhistory⟩ := hcourse
    rw [hhistory] at hmem; exact absurd hmem not_mem_emitted
  · rename_i out phase hc
    obtain ⟨ss, hemits, hhistory⟩ := hcourse
    rw [hhistory] at hmem
    have hclosing : .error msg ∈ closing out phase := (List.mem_append.mp hmem).resolve_left not_mem_emitted
    have hout := h.consistent.outcome out phase hc
    cases phase with
    | result => cases hclosing
    | state => cases hclosing
    | publish => simp [closing] at hclosing
    | ended =>
        cases out with
        | ok receiptID => simp [closing, Run.finalEvent] at hclosing
        | error e =>
            have he : msg = e := by simpa [closing, Run.finalEvent] using hclosing
            subst he
            exact ⟨ss, hemits, hhistory, hout⟩

/-- **A final event says that the run is over**, and how it ended. -/
theorem Task.OnCourse.over {rn : Runner X} {t : Task X} (h : t.OnCourse rn) {out : Except String String}
    (hmem : Run.finalEvent out ∈ t.run.history) : t.ctl = .finishing out .ended := by
  have hemitted : ∀ ss : List Step, Run.finalEvent out ∉ (.state .running :: ss.map .step : List Event) := by
    intro ss hmem
    rcases List.mem_cons.mp hmem with he | hmem
    · cases out <;> cases he
    · obtain ⟨s, _, hs⟩ := List.mem_map.mp hmem
      cases out <;> cases hs
  have hcourse := h.course
  unfold Task.Course at hcourse
  split at hcourse
  · rw [hcourse.2] at hmem; cases hmem
  · rw [hcourse.2] at hmem; cases hmem
  · rw [hcourse.2] at hmem; exact absurd hmem (hemitted [])
  · rw [hcourse.2] at hmem; exact absurd hmem (hemitted [])
  · obtain ⟨ss, _, hhistory⟩ := hcourse
    rw [hhistory] at hmem; exact absurd hmem (hemitted ss)
  · obtain ⟨ss, _, hhistory⟩ := hcourse
    rw [hhistory] at hmem; exact absurd hmem (hemitted ss)
  · obtain ⟨ss, _, hhistory⟩ := hcourse
    rw [hhistory] at hmem; exact absurd hmem (hemitted ss)
  · rename_i out' phase hc
    obtain ⟨ss, _, hhistory⟩ := hcourse
    rw [hhistory] at hmem
    have hclosing : Run.finalEvent out ∈ closing out' phase :=
      (List.mem_append.mp hmem).resolve_left (hemitted ss)
    cases phase with
    | result => cases hclosing
    | state => cases hclosing
    | publish => cases out <;> simp [closing, Run.finalEvent] at hclosing
    | ended =>
        rcases List.mem_cons.mp hclosing with he | he
        · cases out <;> cases he
        · have he := List.mem_singleton.mp he
          rw [hc]
          cases out <;> cases out' <;> cases he <;> rfl

/-- **A run with a failed step does not complete.** -/
theorem Task.OnCourse.not_complete {rn : Runner X} {t : Task X} (h : t.OnCourse rn) {s : Step}
    (hmem : .step s ∈ t.run.history) (hfailed : s.status = .failed) : t.run.state ≠ .complete := by
  intro hstate
  have hterm : t.ctl.state.terminal = true := by rw [← h.consistent.state, hstate]; rfl
  obtain ⟨out, hctl⟩ := ctl_of_terminal hterm
  have hout : out.isOk = true := by
    have hfinal : t.run.state = Run.finalState out := by
      rw [h.consistent.state]; rcases hctl with hc | hc <;> rw [hc] <;> rfl
    cases out with
    | ok receiptID => rfl
    | error e => rw [hstate] at hfinal; cases hfinal
  have hcourse := h.course
  unfold Task.Course at hcourse
  obtain ⟨ss, hemits, phase, hhistory⟩ : ∃ ss, Emits rn t.post t.run.mode t.run.flow ss out.isOk ∧
      ∃ phase, t.run.history = .state .running :: ss.map .step ++ closing out phase := by
    rcases hctl with hc | hc <;> rw [hc] at hcourse <;> obtain ⟨ss, hemits, hhistory⟩ := hcourse <;>
      exact ⟨ss, hemits, _, hhistory⟩
  have hs : s ∈ ss := by
    have hsteps : s ∈ stepsOf t.run.history := List.mem_filterMap.mpr ⟨_, hmem, rfl⟩
    have hcloses : stepsOf (closing out phase) = [] := by cases out <;> cases phase <;> rfl
    have hemitted : stepsOf (.state .running :: ss.map .step) = ss := by
      show (ss.map Event.step).filterMap _ = ss
      rw [List.filterMap_map]
      exact List.filterMap_some
    rwa [hhistory, stepsOf_append, hcloses, List.append_nil, hemitted] at hsteps
  rw [hout] at hemits
  cases hemits with
  | narrated hp =>
      -- every stage of a package is complete
      obtain ⟨s', _, rfl⟩ := List.mem_map.mp hs
      cases hfailed

/-- **Every run's history follows the protocol.** At any moment of a manager, the history of a run that
    `Start` has created is a prefix of a protocol, in full once its `execute` has returned, and its
    snapshot shows the steps of its history. -/
theorem follows_protocol (rn : Runner X) (store : ReceiptStore X) {as : List ManagerAction}
    {m : RunManager X} (h : exec RunManager.step (newRunManager rn store) as = some m) :
    (∀ r ∈ m.starting, r.history = [] ∧ r.snapshot.steps = []) ∧
    ∀ id t, m.runs.lookup id = some t →
      (∃ history, Protocol history ∧ t.run.history <+: history) ∧
      (∀ out, t.ctl = .finishing out .ended → Protocol t.run.history) ∧
      t.run.snapshot.steps = stepsOf t.run.history := by
  have hall := allRuns_exec (onCourse_ofRun rn) (fun hi hs => hi.step hs) h
  constructor
  · intro r hr
    obtain ⟨id, mode, flow, rfl⟩ := hall.starting r hr
    exact ⟨rfl, rfl⟩
  · intro id t hl
    have ht := hall.runs id t hl
    exact ⟨ht.extends, fun out hc => ht.ended hc, ht.steps⟩

theorem follows_protocol_sample : ∃ m t,
    exec RunManager.step (newRunManager sampleNode { dir := "", runs := ∅ }) endedActions = some m ∧
    m.runs.lookup "run-1" = some t ∧ t.run.history.length = 12 ∧ Protocol t.run.history := by
  have hrun : (exec RunManager.step (newRunManager sampleNode { dir := "", runs := ∅ }) endedActions).map
      (fun m => (m.runs.lookup "run-1").map fun t => (t.run.history.length, t.ctl.isEnded))
        = some (some (12, true)) := by decide +kernel
  obtain ⟨m, hm, hlookup⟩ := Option.map_eq_some_iff.mp hrun
  obtain ⟨t, ht, hpair⟩ := Option.map_eq_some_iff.mp hlookup
  obtain ⟨hlen, hended⟩ := Prod.mk.inj hpair
  obtain ⟨out, hc⟩ := Ctl.isEnded_iff.mp hended
  exact ⟨m, t, hm, ht, hlen, ((follows_protocol sampleNode _ hm).2 "run-1" t ht).2.1 out hc⟩

end Api
end InfrixPlayground
