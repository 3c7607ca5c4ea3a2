import InfrixPlayground.Api.Receipts
import InfrixPlayground.Api.Run
import InfrixPlayground.Lib.Machine
import InfrixPlayground.Worker.Narration

/-!
# `Api.RunTask` — a run on its way through `Start` and `execute`

A `Task` is a run together with the point its goroutine has reached: `Ctl` has one constructor for each
place where the goroutine can be interrupted. The steps of the goroutine, and what subscribers do in
between, are the actions of one machine; the answers of the node, of the clock and of the disk are
arguments of the actions. `TaskStep` says once what a step can do, and `Consistent` what the fields of a
run say at each point.
-/

namespace InfrixPlayground
namespace Api

open Worker

variable {X : Externals}

/-- The critical section that `finishOK` or `finishErr` takes next. -/
inductive Phase where
  | result
  | state
  | publish
  | ended
deriving DecidableEq, Repr

/-- Where the goroutine of a run stands. -/
inductive Ctl (X : Externals) where
  /-- In `Start`: in the registry, not counted yet. -/
  | registered
  /-- In `Start`: counted, not running yet. -/
  | counted
  /-- About to call `Runner.Run`. -/
  | executing
  /-- In `client.Do`. -/
  | waiting (call : NodeCall)
  /-- `Runner.Run` has these steps left to emit before it returns. -/
  | emitting (todo : List Step) (res : Except String (RunResult X))
  /-- About to call `Put`. -/
  | storing (result : RunResult X)
  /-- In `Put`, past the lock. -/
  | persisting (rec : StoredRun X)
  /-- In `finishOK` or `finishErr`. -/
  | finishing (out : Except String String) (phase : Phase)

/-- A run and its goroutine. As history, `answer` keeps what the node answered it, and `put` the record its
    `Put` returned without an error. -/
structure Task (X : Externals) where
  run : Run
  ctl : Ctl X
  answer : Option NodeReply
  put : Option (StoredRun X)

/-- The steps of a run's goroutine and of its subscribers. -/
inductive RunAction where
  | count
  | launch
  | call
  | reply (reply : NodeReply) (verifiedAt : String)
  | emit
  | settle
  | insert (now : Time)
  | persist (err : Option String)
  | finish
  | subscribe
  | unsub (i : Nat)
  | recv (i : Nat)
deriving DecidableEq

/-- What `execute` hands to `Put`. -/
def storedRun (flow : String) (result : RunResult X) : StoredRun X :=
  { id := ""
    mode := result.mode.name
    flow := flow
    network := result.networkLabel
    proofLabel := result.proofLabel
    createdAt := zeroTime
    receipt := result.receipt
    bundleJSON := result.bundleJSON }

/-- What `execute` reports of a `Put` that fails. -/
def storeError (e : String) : Except String String := .error ("could not store run: " ++ e)

namespace Task

/-- A run that `Start` has just put into the registry. -/
def ofRun (r : Run) : Task X := { run := r, ctl := .registered, answer := none, put := none }

/-- The run `Start` creates, just put into the registry. -/
def start (id : String) (mode : Mode) (flow : String) : Task X :=
  ofRun (.new id mode (if flow = "" then flowGoldenEscrow else flow))

/-- One critical section of `finishOK` or `finishErr`, and the one after it. -/
def finishStep (out : Except String String) : Phase → Run → Option (Run × Phase)
  | .result, r => some (r.setResult out, .state)
  | .state, r => some ((r.transition (Run.finalState out)).1, .publish)
  | .publish, r => some (r.publishFinal out, .ended)
  | .ended, _ => none

/-- One step. -/
def step (rn : Runner X) (t : Task X) (a : RunAction) : Option (Task X) :=
  match a, t.ctl with
  | .count, .registered => some { t with ctl := .counted }
  | .launch, .counted => some { t with run := (t.run.transition .running).1, ctl := .executing }
  | .call, .executing =>
    match rn.pendingCall t.run.mode t.run.flow with
    | some call => some { t with ctl := .waiting call }
    | none =>
      let out := rn.run (fun _ => .failed "") "" t.run.mode t.run.flow
      some { t with ctl := .emitting (emitted out.1) out.2 }
  | .reply reply verifiedAt, .waiting _ =>
    let out := rn.run (fun _ => reply) verifiedAt t.run.mode t.run.flow
    some { t with ctl := .emitting (emitted out.1) out.2, answer := some reply }
  | .emit, .emitting (s :: todo) res => some { t with run := t.run.addStep s, ctl := .emitting todo res }
  | .settle, .emitting [] (.error e) => some { t with ctl := .finishing (.error e) .result }
  | .settle, .emitting [] (.ok result) => some { t with ctl := .storing result }
  | .insert now, .storing result =>
    match StoredRun.prepare now (some (storedRun t.run.flow result)) with
    | .error e => some { t with ctl := .finishing (storeError e) .result }
    | .ok rec => some { t with ctl := .persisting rec }
  | .persist none, .persisting rec =>
    some { t with ctl := .finishing (.ok rec.id) .result, put := some rec }
  | .persist (some e), .persisting _ => some { t with ctl := .finishing (storeError e) .result }
  | .finish, .finishing out phase =>
    (finishStep out phase t.run).map fun p => { t with run := p.1, ctl := .finishing out p.2 }
  | .subscribe, _ => some { t with run := t.run.subscribe }
  | .unsub i, _ => some { t with run := t.run.unsub i }
  | .recv i, _ => some { t with run := t.run.recv i }
  | _, _ => none

end Task

/-- What a step can do. -/
inductive TaskStep (rn : Runner X) (t : Task X) : RunAction → Task X → Prop where
  | count (hc : t.ctl = .registered) : TaskStep rn t .count { t with ctl := .counted }
  | launch (hc : t.ctl = .counted) :
      TaskStep rn t .launch { t with run := (t.run.transition .running).1, ctl := .executing }
  | call {call : NodeCall} (hc : t.ctl = .executing)
      (hp : rn.pendingCall t.run.mode t.run.flow = some call) :
      TaskStep rn t .call { t with ctl := .waiting call }
  | refuse {effs : List (Effect X)} {res : Except String (RunResult X)} (hc : t.ctl = .executing)
      (hp : rn.pendingCall t.run.mode t.run.flow = none)
      (hr : rn.run (fun _ => .failed "") "" t.run.mode t.run.flow = (effs, res)) :
      TaskStep rn t .call { t with ctl := .emitting (emitted effs) res }
  | reply {call : NodeCall} {reply : NodeReply} {verifiedAt : String} {effs : List (Effect X)}
      {res : Except String (RunResult X)} (hc : t.ctl = .waiting call)
      (hr : rn.run (fun _ => reply) verifiedAt t.run.mode t.run.flow = (effs, res)) :
      TaskStep rn t (.reply reply verifiedAt)
        { t with ctl := .emitting (emitted effs) res, answer := some reply }
  | emit {s : Step} {todo : List Step} {res : Except String (RunResult X)}
      (hc : t.ctl = .emitting (s :: todo) res) :
      TaskStep rn t .emit { t with run := t.run.addStep s, ctl := .emitting todo res }
  | runFailed {e : String} (hc : t.ctl = .emitting [] (.error e)) :
      TaskStep rn t .settle { t with ctl := .finishing (.error e) .result }
  | runReturned {result : RunResult X} (hc : t.ctl = .emitting [] (.ok result)) :
      TaskStep rn t .settle { t with ctl := .storing result }
  | putRefused {result : RunResult X} {now : Time} {e : String} (hc : t.ctl = .storing result)
      (hp : StoredRun.prepare now (some (storedRun t.run.flow result)) = .error e) :
      TaskStep rn t (.insert now) { t with ctl := .finishing (storeError e) .result }
  | inserted {result : RunResult X} {now : Time} {rec : StoredRun X} (hc : t.ctl = .storing result)
      (hp : StoredRun.prepare now (some (storedRun t.run.flow result)) = .ok rec) :
      TaskStep rn t (.insert now) { t with ctl := .persisting rec }
  | returned {rec : StoredRun X} (hc : t.ctl = .persisting rec) :
      TaskStep rn t (.persist none)
        { t with ctl := .finishing (.ok rec.id) .result, put := some rec }
  | notPersisted {rec : StoredRun X} {e : String} (hc : t.ctl = .persisting rec) :
      TaskStep rn t (.persist (some e)) { t with ctl := .finishing (storeError e) .result }
  | setResult {out : Except String String} (hc : t.ctl = .finishing out .result) :
      TaskStep rn t .finish { t with run := t.run.setResult out, ctl := .finishing out .state }
  | setState {out : Except String String} (hc : t.ctl = .finishing out .state) :
      TaskStep rn t .finish
        { t with run := (t.run.transition (Run.finalState out)).1, ctl := .finishing out .publish }
  | publish {out : Except String String} (hc : t.ctl = .finishing out .publish) :
      TaskStep rn t .finish { t with run := t.run.publishFinal out, ctl := .finishing out .ended }
  | subscribe : TaskStep rn t .subscribe { t with run := t.run.subscribe }
  | unsub {i : Nat} : TaskStep rn t (.unsub i) { t with run := t.run.unsub i }
  | recv {i : Nat} : TaskStep rn t (.recv i) { t with run := t.run.recv i }

theorem task_step {rn : Runner X} {t t' : Task X} {a : RunAction} (h : t.step rn a = some t') :
    TaskStep rn t a t' := by
  unfold Task.step at h
  split at h
  · rename_i hc; cases h; exact .count hc
  · rename_i hc; cases h; exact .launch hc
  · rename_i hc
    split at h
    · rename_i hp; cases h; exact .call hc hp
    · rename_i hp; cases h; exact .refuse hc hp rfl
  · rename_i hc; cases h; exact .reply hc rfl
  · rename_i hc; cases h; exact .emit hc
  · rename_i hc; cases h; exact .runFailed hc
  · rename_i hc; cases h; exact .runReturned hc
  · rename_i hc
    split at h
    · rename_i hp; cases h; exact .putRefused hc hp
    · rename_i hp; cases h; exact .inserted hc hp
  · rename_i hc; cases h; exact .returned hc
  · rename_i hc; cases h; exact .notPersisted hc
  · rename_i out phase hc
    cases phase with
    | result => cases h; exact .setResult hc
    | state => cases h; exact .setState hc
    | publish => cases h; exact .publish hc
    | ended => simp [Task.finishStep] at h
  · cases h; exact .subscribe
  · cases h; exact .unsub
  · cases h; exact .recv
  · exact absurd h (by simp)

/-- What a run was asked for never changes. -/
theorem TaskStep.asked {rn : Runner X} {t t' : Task X} {a : RunAction} (hs : TaskStep rn t a t') :
    t'.run.mode = t.run.mode ∧ t'.run.flow = t.run.flow := by
  have htransition : ∀ next, (t.run.transition next).1.mode = t.run.mode ∧
      (t.run.transition next).1.flow = t.run.flow := by
    intro next; unfold Run.transition; split <;> exact ⟨rfl, rfl⟩
  cases hs with
  | launch hc => exact htransition _
  | setState hc => exact htransition _
  | @setResult out hc => cases out <;> exact ⟨rfl, rfl⟩
  | subscribe => obtain ⟨s, heq⟩ := t.run.subscribe_eq; rw [heq]; exact ⟨rfl, rfl⟩
  | _ => exact ⟨rfl, rfl⟩

/-- A runner against the stand-in's node. -/
def sampleNode : Runner sampleX := .new sampleX "http://127.0.0.1:8080" false

/-- An anonymous run against it, up to the transition to its final state. -/
def sampleActions : List RunAction :=
  [.count, .launch, .call, .reply (.answered 200 [0x7B, 0x7D]) "2024-01-01T00:00:00Z"]
    ++ List.replicate 9 .emit ++ [.settle, .insert 1, .persist none, .finish, .finish]

/-! ## What the fields of a run say -/

/-- The state a run is in while its goroutine stands here. -/
def Ctl.state : Ctl X → RunState
  | .registered => .created
  | .counted => .created
  | .finishing out .publish => Run.finalState out
  | .finishing out .ended => Run.finalState out
  | _ => .running

/-- A goroutine in a final state is in, or past, the last critical section. -/
theorem ctl_of_terminal {ctl : Ctl X} (h : ctl.state.terminal = true) :
    ∃ out, ctl = .finishing out .publish ∨ ctl = .finishing out .ended := by
  cases ctl with
  | finishing out phase =>
      cases phase with
      | publish => exact ⟨out, .inl rfl⟩
      | ended => exact ⟨out, .inr rfl⟩
      | result => simp [Ctl.state, RunState.terminal] at h
      | state => simp [Ctl.state, RunState.terminal] at h
  | _ => simp [Ctl.state, RunState.terminal] at h

/-- `execute` has returned. -/
def Ctl.isEnded : Ctl X → Bool
  | .finishing _ .ended => true
  | _ => false

theorem Ctl.isEnded_iff {ctl : Ctl X} : ctl.isEnded = true ↔ ∃ out, ctl = .finishing out .ended := by
  constructor
  · intro h
    unfold Ctl.isEnded at h
    split at h
    · exact ⟨_, rfl⟩
    · cases h
  · rintro ⟨out, rfl⟩
    rfl

/-- The result a run shows while its goroutine stands here. -/
def Ctl.result : Ctl X → Option (Except String String)
  | .finishing _ .result => none
  | .finishing out _ => some out
  | _ => none

/-- The receipt id of a result, if it is one. -/
def receiptOf : Option (Except String String) → String
  | some (.ok id) => id
  | _ => ""

/-- The message of a result, if it is an error. -/
def messageOf : Option (Except String String) → String
  | some (.error e) => e
  | _ => ""

/-- A result says what there is to say: the id of the record the run's own `Put` returned, or why the run
    failed. -/
def Task.Explains (put : Option (StoredRun X)) : Except String String → Prop
  | .ok id => ∃ rec, put = some rec ∧ rec.id = id
  | .error e => e ≠ ""

/-- **The invariant of the fields.** -/
structure Consistent (t : Task X) : Prop where
  state : t.run.state = t.ctl.state
  receiptID : t.run.receiptID = receiptOf t.ctl.result
  errMsg : t.run.errMsg = messageOf t.ctl.result
  outcome : ∀ out phase, t.ctl = .finishing out phase → Task.Explains t.put out
  message : ∀ todo e, t.ctl = .emitting todo (.error e) → e ≠ ""

theorem consistent_ofRun (id : String) (mode : Mode) (flow : String) :
    Consistent (.ofRun (.new id mode flow) : Task X) := by
  refine ⟨rfl, rfl, rfl, ?_, ?_⟩
  · intro out phase h; cases h
  · intro todo e h; cases h

theorem consistent_start (id : String) (mode : Mode) (flow : String) :
    Consistent (Task.start id mode flow : Task X) :=
  consistent_ofRun id mode _

theorem storeError_explains (put : Option (StoredRun X)) (e : String) :
    Task.Explains put (storeError e) :=
  GoText.append_ne_empty_left (by decide) e

/-- A run whose goroutine moves on to emitting what `Runner.Run` returned. -/
theorem Consistent.ran {t : Task X} (h : Consistent t) {rn : Runner X}
    (hstate : t.ctl.state = .running) (hresult : t.ctl.result = none) {post : NodeCall → NodeReply}
    {verifiedAt : String} {effs : List (Effect X)} {res : Except String (RunResult X)}
    (hr : rn.run post verifiedAt t.run.mode t.run.flow = (effs, res)) (answer : Option NodeReply) :
    Consistent { t with ctl := .emitting (emitted effs) res, answer := answer } := by
  refine ⟨h.state.trans hstate, ?_, ?_, ?_, ?_⟩
  · rw [h.receiptID, hresult]; rfl
  · rw [h.errMsg, hresult]; rfl
  · intro out phase hc; cases hc
  · intro todo e hc
    cases hc
    have hout := run_outcome rn post verifiedAt t.run.mode t.run.flow
    rw [hr] at hout
    exact hout.error_ne_empty

/-- A goroutine that moves on without touching the run. -/
theorem Consistent.moved {t : Task X} (h : Consistent t) {ctl : Ctl X} {put : Option (StoredRun X)}
    (hstate : ctl.state = t.ctl.state) (hresult : ctl.result = t.ctl.result)
    (houtcome : ∀ out phase, ctl = .finishing out phase → Task.Explains put out)
    (hmessage : ∀ todo e, ctl = .emitting todo (.error e) → e ≠ "") :
    Consistent { t with ctl := ctl, put := put } :=
  ⟨h.state.trans hstate.symm, by rw [hresult]; exact h.receiptID, by rw [hresult]; exact h.errMsg,
    houtcome, hmessage⟩

/-- **The fields stay consistent under every step.** -/
theorem Consistent.step {rn : Runner X} {t t' : Task X} {a : RunAction} (h : Consistent t)
    (hs : TaskStep rn t a t') : Consistent t' := by
  have hstate := h.state
  have hreceipt := h.receiptID
  have herr := h.errMsg
  cases hs with
  | count hc =>
      exact h.moved (by rw [hc]; rfl) (by rw [hc]; rfl) nofun nofun
  | launch hc =>
      rw [hc] at hstate hreceipt herr
      -- the invariant knows the state, so the guard of `transition` does not fail here
      have hcan : t.run.state.canTransition .running = true := by rw [hstate]; rfl
      rw [Run.transition_of_can hcan]
      exact ⟨rfl, hreceipt, herr, nofun, nofun⟩
  | call hc hp =>
      exact h.moved (by rw [hc]; rfl) (by rw [hc]; rfl) nofun nofun
  | refuse hc hp hr => exact h.ran (by rw [hc]; rfl) (by rw [hc]; rfl) hr _
  | reply hc hr => exact h.ran (by rw [hc]; rfl) (by rw [hc]; rfl) hr _
  | emit hc =>
      rw [hc] at hstate hreceipt herr
      refine ⟨hstate, hreceipt, herr, nofun, ?_⟩
      intro todo e hc'
      cases hc'
      exact h.message _ e hc
  | runFailed hc =>
      refine h.moved (by rw [hc]; rfl) (by rw [hc]; rfl) ?_ nofun
      intro out phase hc'
      cases hc'
      exact h.message _ _ hc
  | runReturned hc =>
      exact h.moved (by rw [hc]; rfl) (by rw [hc]; rfl) nofun nofun
  | putRefused hc hp =>
      refine h.moved (by rw [hc]; rfl) (by rw [hc]; rfl) ?_ nofun
      intro out phase hc'; cases hc'; exact storeError_explains _ _
  | inserted hc hp =>
      exact h.moved (by rw [hc]; rfl) (by rw [hc]; rfl) nofun nofun
  | @returned rec hc =>
      refine h.moved (by rw [hc]; rfl) (by rw [hc]; rfl) ?_ nofun
      intro out phase hc'; cases hc'; exact ⟨rec, rfl, rfl⟩
  | notPersisted hc =>
      refine h.moved (by rw [hc]; rfl) (by rw [hc]; rfl) ?_ nofun
      intro out phase hc'; cases hc'; exact storeError_explains _ _
  | @setResult out hc =>
      have hout := h.outcome _ _ hc
      rw [hc] at hstate hreceipt herr
      refine ⟨?_, ?_, ?_, (fun _ _ hc' => by cases hc'; exact hout), nofun⟩
      · cases out <;> exact hstate
      · cases out with
        | ok id => rfl
        | error e => exact hreceipt
      · cases out with
        | ok id => exact herr
        | error e => rfl
  | @setState out hc =>
      have hout := h.outcome _ _ hc
      rw [hc] at hstate hreceipt herr
      have hcan : t.run.state.canTransition (Run.finalState out) = true := by
        rw [hstate]; exact Run.canTransition_final out
      rw [Run.transition_of_can hcan]
      exact ⟨rfl, hreceipt, herr, (fun _ _ hc' => by cases hc'; exact hout), nofun⟩
  | publish hc =>
      have hout := h.outcome _ _ hc
      rw [hc] at hstate hreceipt herr
      exact ⟨hstate, hreceipt, herr, (fun _ _ hc' => by cases hc'; exact hout), nofun⟩
  | subscribe =>
      obtain ⟨s, hs⟩ := t.run.subscribe_eq
      rw [hs]
      exact ⟨hstate, hreceipt, herr, h.outcome, h.message⟩
  | unsub => exact ⟨hstate, hreceipt, herr, h.outcome, h.message⟩
  | recv => exact ⟨hstate, hreceipt, herr, h.outcome, h.message⟩

end Api
end InfrixPlayground
