import InfrixPlayground.Lib.Chan
import InfrixPlayground.Worker.Flow

/-!
# `Api.Run` — one run: its state machine, its history, its subscribers

Each definition is one critical section of `Run`: what a holder of the run's lock does before releasing
it. `finishOK` and `finishErr` are three of them each, with the lock released in between.
-/

namespace InfrixPlayground
namespace Api

open Worker

/-- The lifecycle of a playground run. -/
inductive RunState where
  | created
  | running
  | complete
  | failed
deriving DecidableEq, Repr

/-- `type RunState string`. -/
def RunState.name : RunState → String
  | .created => "created"
  | .running => "running"
  | .complete => "complete"
  | .failed => "failed"

/-- The state machine: forward-only, created → running → complete|failed. -/
def RunState.canTransition : RunState → RunState → Bool
  | .created, next => next == .running
  | .running, next => next == .complete || next == .failed
  | _, _ => false

def RunState.terminal (s : RunState) : Bool := s == .complete || s == .failed

/-- One item streamed over a run's channel, by its `type`: a new state, a step, the completed run's
    receipt id, the failed run's message. The last two have that run's `State` in them. -/
inductive Event where
  | state (next : RunState)
  | step (s : Step)
  | done (receiptID : String)
  | error (msg : String)
deriving DecidableEq, Repr

/-- Who closed a subscriber's channel. -/
inductive Closer where
  | runSide
  | unsub
deriving DecidableEq, Repr

/-- A channel handed out by `Subscribe`: whether it is in the run's `subs`, and (as history) who closed
    it. -/
structure Sub where
  chan : Chan Event
  registered : Bool
  closedBy : Option Closer

/-- A single playground run; `subs` keeps every channel it ever handed out, in order. -/
structure Run where
  id : String
  mode : Mode
  flow : String
  state : RunState
  steps : List Step
  receiptID : String
  errMsg : String
  subs : List Sub
  history : List Event

/-- An immutable view of a run for the status endpoint. -/
structure Snapshot where
  id : String
  mode : Mode
  state : RunState
  steps : List Step
  receiptID : String
  error : String
deriving DecidableEq, Repr

namespace Run

/-- `&Run{ID: id, Mode: mode, Flow: flow, state: StateCreated}`. -/
def new (id : String) (mode : Mode) (flow : String) : Run :=
  { id, mode, flow, state := .created, steps := [], receiptID := "", errMsg := "", subs := [],
    history := [] }

def snapshot (r : Run) : Snapshot :=
  { id := r.id, mode := r.mode, state := r.state, steps := r.steps, receiptID := r.receiptID,
    error := r.errMsg }

/-- Offer an event to a subscriber, without blocking, if it is registered. -/
def offer (e : Event) (s : Sub) : Sub := if s.registered then { s with chan := s.chan.trySend e } else s

/-- Record the event in history and fan it out to subscribers. -/
def publishLocked (e : Event) (r : Run) : Run :=
  { r with history := r.history ++ [e], subs := r.subs.map (offer e) }

/-- Close a registered subscriber's channel and take it out of `subs`. -/
def dismiss (by_ : Closer) (s : Sub) : Sub :=
  if s.registered then { chan := s.chan.close, registered := false, closedBy := some by_ } else s

def closeSubsLocked (r : Run) : Run := { r with subs := r.subs.map (dismiss .runSide) }

/-- Advance the state, enforcing the state machine; an illegal transition changes nothing. -/
def transition (next : RunState) (r : Run) : Run × Bool :=
  if !r.state.canTransition next then (r, false)
  else (publishLocked (.state next) { r with state := next }, true)

def addStep (s : Step) (r : Run) : Run := publishLocked (.step s) { r with steps := r.steps ++ [s] }

/-! ## `finishOK` and `finishErr` -/

/-- First critical section: the result. -/
def setResult (out : Except String String) (r : Run) : Run :=
  match out with
  | .ok receiptID => { r with receiptID := receiptID }
  | .error msg => { r with errMsg := msg }

/-- The state a run ends in. -/
def finalState : Except String String → RunState
  | .ok _ => .complete
  | .error _ => .failed

/-- The event that ends a run's stream. -/
def finalEvent : Except String String → Event
  | .ok receiptID => .done receiptID
  | .error msg => .error msg

/-- Third critical section: the final event, then the channels. -/
def publishFinal (out : Except String String) (r : Run) : Run :=
  closeSubsLocked (publishLocked (finalEvent out) r)

/-! ## Subscribers -/

/-- `Subscribe`: a channel prefilled with the history, closed at once on a terminal run. -/
def subscribe (r : Run) : Run :=
  let ch := r.history.foldl Chan.send (Chan.make (r.history.length + 16))
  if r.state.terminal then
    { r with subs := r.subs ++ [{ chan := ch.close, registered := false, closedBy := some .runSide }] }
  else { r with subs := r.subs ++ [{ chan := ch, registered := true, closedBy := none }] }

/-- The unsubscribe function of the `i`-th subscriber. -/
def unsub (i : Nat) (r : Run) : Run := { r with subs := r.subs.modify i (dismiss .unsub) }

/-- The `i`-th subscriber receives once. -/
def recv (i : Nat) (r : Run) : Run :=
  { r with subs := r.subs.modify i fun s => { s with chan := s.chan.recv } }

/-! ## What the operations leave alone -/

/-- `Subscribe` only adds a channel. -/
theorem subscribe_eq (r : Run) : ∃ s : Sub, r.subscribe = { r with subs := r.subs ++ [s] } := by
  unfold subscribe
  dsimp only
  split <;> exact ⟨_, rfl⟩

/-- A legal transition sets the state and publishes it. -/
theorem transition_of_can {next : RunState} {r : Run} (h : r.state.canTransition next = true) :
    (r.transition next).1 = publishLocked (.state next) { r with state := next } := by
  simp [transition, h]

/-- From running a run can end. -/
theorem canTransition_final (out : Except String String) :
    RunState.running.canTransition (finalState out) = true := by
  cases out <;> rfl

theorem terminal_final (out : Except String String) : (finalState out).terminal = true := by
  cases out <;> rfl

end Run

end Api
end InfrixPlayground
