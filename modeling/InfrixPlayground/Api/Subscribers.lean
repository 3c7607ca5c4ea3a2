import InfrixPlayground.Api.RunEvents

/-!
# `Api.Subscribers` — any callers of one run

`Shared` lets any number of callers use a run in any order: its publishers, its subscribers, and calls of
`finishOK` and `finishErr`, each of them three critical sections. Whatever they do, a channel is open exactly as
long as it is registered, which is why nobody closes it twice, sends on it once it is closed, or blocks on it
while holding the lock. A finishing call leaves nobody registered for good if it finds the run started; one that
finds it still created has its transition refused, and later subscribers are registered (`subscribers_safe`,
`registered_after_finish`). The goroutine of `Start` is one such caller, and always finds its run started
(`started_subscribers_safe`).
-/

namespace InfrixPlayground
namespace Api

open Worker Machine

/-! ## The callers -/

/-- A call of `finishOK` or `finishErr`: its result and the critical section it takes next. As history, whether
    its `transition` found the run started. -/
structure FinishCall where
  out : Except String String
  phase : Phase
  foundStarted : Bool

/-- A run and the finishing calls there have been, in order. -/
structure Shared where
  run : Run
  calls : List FinishCall

/-- What callers do: the methods of `Run`, the returned unsubscribe functions, a receive from a channel, and the
    next critical section of a finishing call. -/
inductive CallAction where
  | subscribe
  | unsub (i : Nat)
  | recv (i : Nat)
  | addStep (s : Step)
  | transition (next : RunState)
  | finish (out : Except String String)
  | advance (j : Nat)

namespace Shared

/-- A new run that nobody has called. -/
def start (id : String) (mode : Mode) (flow : String) : Shared := { run := .new id mode flow, calls := [] }

/-- One critical section of the `j`-th finishing call. -/
def advance (s : Shared) (j : Nat) (c : FinishCall) : Option Shared :=
  (Task.finishStep c.out c.phase s.run).map fun p =>
    { run := p.1
      calls := s.calls.set j
        { c with
          phase := p.2
          foundStarted := if c.phase = .state then decide (s.run.state ≠ .created) else c.foundStarted } }

/-- One step. -/
def step (s : Shared) : CallAction → Option Shared
  | .subscribe => some { s with run := s.run.subscribe }
  | .unsub i => some { s with run := s.run.unsub i }
  | .recv i => some { s with run := s.run.recv i }
  | .addStep st => some { s with run := s.run.addStep st }
  | .transition next => some { s with run := (s.run.transition next).1 }
  | .finish out => some { s with calls := s.calls ++ [{ out, phase := .result, foundStarted := false }] }
  | .advance j =>
    match s.calls[j]? with
    | none => none
    | some c => s.advance j c

end Shared

/-! ## Channels -/

/-- Nothing went wrong on the channel, and it is open exactly while it is registered. -/
structure Sub.Safe (s : Sub) : Prop where
  fault : s.chan.fault = none
  open_iff : s.registered = true ↔ s.chan.closed = false

/-- A non-blocking send on an open channel is harmless, whether or not there is room. -/
theorem Sub.Safe.offer {s : Sub} (h : s.Safe) (e : Event) : (Run.offer e s).Safe := by
  unfold Run.offer
  by_cases hr : s.registered = true
  · have hopen := h.open_iff.mp hr
    rw [if_pos hr]
    unfold Chan.trySend
    rw [if_neg (by rw [hopen]; exact Bool.false_ne_true)]
    split
    · exact ⟨h.fault, iff_of_true hr hopen⟩
    · exact ⟨h.fault, iff_of_true hr hopen⟩
  · rw [if_neg hr]; exact h

/-- Whoever closes a channel takes it out of `subs`. -/
theorem Sub.Safe.dismiss {s : Sub} (h : s.Safe) (who : Closer) : (Run.dismiss who s).Safe := by
  unfold Run.dismiss
  by_cases hr : s.registered = true
  · rw [if_pos hr, Chan.close_open (h.open_iff.mp hr)]
    exact ⟨h.fault, ⟨nofun, nofun⟩⟩
  · rw [if_neg hr]; exact h

theorem Sub.Safe.recv {s : Sub} (h : s.Safe) : ({ s with chan := s.chan.recv } : Sub).Safe :=
  ⟨by rw [Chan.fault_recv]; exact h.fault, by rw [Chan.closed_recv]; exact h.open_iff⟩

theorem registered_offer (e : Event) (s : Sub) : (Run.offer e s).registered = s.registered := by
  unfold Run.offer
  split <;> rfl

theorem registered_dismiss (who : Closer) (s : Sub) : (Run.dismiss who s).registered = false := by
  unfold Run.dismiss
  split
  · rfl
  · rename_i hr; exact Bool.eq_false_iff.mpr hr

namespace Run

/-- Every channel of the run is safe. -/
def Safe (r : Run) : Prop := ∀ s ∈ r.subs, s.Safe

/-- Nobody is registered. -/
def Deserted (r : Run) : Prop := ∀ s ∈ r.subs, s.registered = false

theorem Safe.publish {r : Run} (h : r.Safe) (e : Event) : (r.publishLocked e).Safe := by
  intro s hs
  obtain ⟨s₀, hs₀, rfl⟩ := List.mem_map.mp hs
  exact (h s₀ hs₀).offer e

theorem Deserted.publish {r : Run} (h : r.Deserted) (e : Event) : (r.publishLocked e).Deserted := by
  intro s hs
  obtain ⟨s₀, hs₀, rfl⟩ := List.mem_map.mp hs
  rw [registered_offer]
  exact h s₀ hs₀

theorem Safe.closeSubs {r : Run} (h : r.Safe) : r.closeSubsLocked.Safe := by
  intro s hs
  obtain ⟨s₀, hs₀, rfl⟩ := List.mem_map.mp hs
  exact (h s₀ hs₀).dismiss .runSide

theorem deserted_closeSubs (r : Run) : r.closeSubsLocked.Deserted := by
  intro s hs
  obtain ⟨s₀, _, rfl⟩ := List.mem_map.mp hs
  exact registered_dismiss .runSide s₀

/-- The channel `Subscribe` hands out had room for the history; on a run that is over it is closed and not
    registered. -/
theorem subscribe_spec (r : Run) : ∃ s : Sub, r.subscribe = { r with subs := r.subs ++ [s] } ∧ s.Safe ∧
    (r.state.terminal = true → s.registered = false) := by
  obtain ⟨_, hopen, _, hfault, _⟩ := prefill r.history
  unfold Run.subscribe
  dsimp only
  split
  · rw [Chan.close_open hopen]
    exact ⟨_, rfl, ⟨hfault, ⟨nofun, nofun⟩⟩, fun _ => rfl⟩
  · rename_i hterm
    exact ⟨_, rfl, ⟨hfault, iff_of_true rfl hopen⟩, fun h => absurd h hterm⟩

theorem Safe.subscribe {r : Run} (h : r.Safe) : r.subscribe.Safe := by
  obtain ⟨s, heq, hsafe, _⟩ := r.subscribe_spec
  rw [heq]
  intro s' hs'
  rcases List.mem_append.mp hs' with hs' | hs'
  · exact h s' hs'
  · rw [List.mem_singleton.mp hs']; exact hsafe

theorem Deserted.subscribe {r : Run} (h : r.Deserted) (hterm : r.state.terminal = true) :
    r.subscribe.Deserted := by
  obtain ⟨s, heq, _, hreg⟩ := r.subscribe_spec
  rw [heq]
  intro s' hs'
  rcases List.mem_append.mp hs' with hs' | hs'
  · exact h s' hs'
  · rw [List.mem_singleton.mp hs']; exact hreg hterm

theorem Safe.unsub {r : Run} (h : r.Safe) (i : Nat) : (r.unsub i).Safe := by
  intro s hs
  rcases mem_modify hs with hs | ⟨s₀, hs₀, rfl⟩
  · exact h s hs
  · exact (h s₀ hs₀).dismiss .unsub

theorem Deserted.unsub {r : Run} (h : r.Deserted) (i : Nat) : (r.unsub i).Deserted := by
  intro s hs
  rcases mem_modify hs with hs | ⟨s₀, _, rfl⟩
  · exact h s hs
  · exact registered_dismiss .unsub s₀

theorem Safe.recv {r : Run} (h : r.Safe) (i : Nat) : (r.recv i).Safe := by
  intro s hs
  rcases mem_modify hs with hs | ⟨s₀, hs₀, rfl⟩
  · exact h s hs
  · exact (h s₀ hs₀).recv

theorem Deserted.recv {r : Run} (h : r.Deserted) (i : Nat) : (r.recv i).Deserted := by
  intro s hs
  rcases mem_modify hs with hs | ⟨s₀, hs₀, rfl⟩
  · exact h s hs
  · exact h s₀ hs₀

/-- A transition publishes the new state, or does nothing. -/
theorem transition_cases (next : RunState) (r : Run) : (r.transition next).1 = r ∨
    r.state.canTransition next = true ∧
      (r.transition next).1 = publishLocked (.state next) { r with state := next } := by
  by_cases hcan : r.state.canTransition next = true
  · exact .inr ⟨hcan, transition_of_can hcan⟩
  · exact .inl (by rw [transition, if_pos (by simpa using hcan)])

theorem Safe.transition {r : Run} (h : r.Safe) (next : RunState) : (r.transition next).1.Safe := by
  rcases r.transition_cases next with heq | ⟨_, heq⟩
  · rw [heq]; exact h
  · rw [heq]; exact Safe.publish (r := { r with state := next }) h _

theorem Deserted.transition {r : Run} (h : r.Deserted) (next : RunState) : (r.transition next).1.Deserted := by
  rcases r.transition_cases next with heq | ⟨_, heq⟩
  · rw [heq]; exact h
  · rw [heq]; exact Deserted.publish (r := { r with state := next }) h _

/-- A run that is over stays over. -/
theorem terminal_transition {r : Run} (h : r.state.terminal = true) (next : RunState) :
    (r.transition next).1.state.terminal = true := by
  rcases r.transition_cases next with heq | ⟨hcan, _⟩
  · rw [heq]; exact h
  · have hno : ∀ s : RunState, s.terminal = true → s.canTransition next = false := by
      intro s hs
      cases s with
      | created => cases hs
      | running => cases hs
      | _ => rfl
    rw [hno _ h] at hcan
    cases hcan

/-- A run that was started is over after the transition of a finishing call. -/
theorem terminal_of_started {r : Run} (h : r.state ≠ .created) (out : Except String String) :
    (r.transition (finalState out)).1.state.terminal = true := by
  cases hs : r.state with
  | created => exact absurd hs h
  | running =>
      have hcan : r.state.canTransition (finalState out) = true := by rw [hs]; exact canTransition_final out
      rw [transition_of_can hcan]
      exact terminal_final out
  | complete => exact terminal_transition (by rw [hs]; rfl) _
  | failed => exact terminal_transition (by rw [hs]; rfl) _

end Run

/-! ## The invariant -/

/-- Every channel is safe. A finishing call that found the run started has left it over, and once it has
    returned nobody is registered. -/
structure Shared.Safe (s : Shared) : Prop where
  subs : s.run.Safe
  terminal : ∀ c ∈ s.calls, c.foundStarted = true → s.run.state.terminal = true
  deserted : ∀ c ∈ s.calls, c.phase = .ended → c.foundStarted = true → s.run.Deserted

theorem Shared.safe_start (id : String) (mode : Mode) (flow : String) : (Shared.start id mode flow).Safe :=
  ⟨fun _ hs => absurd hs List.not_mem_nil, fun _ hc => absurd hc List.not_mem_nil,
    fun _ hc => absurd hc List.not_mem_nil⟩

/-- What a caller that is not finishing does to the run. -/
theorem Shared.Safe.used {s : Shared} (h : s.Safe) {r : Run} (hsafe : r.Safe)
    (hover : s.run.state.terminal = true → r.state.terminal = true)
    (hdeserted : s.run.Deserted → s.run.state.terminal = true → r.Deserted) :
    Shared.Safe { s with run := r } :=
  ⟨hsafe, fun c hc hstarted => hover (h.terminal c hc hstarted),
    fun c hc hended hstarted => hdeserted (h.deserted c hc hended hstarted) (h.terminal c hc hstarted)⟩

/-- **The critical sections of a finishing call.** -/
theorem Shared.Safe.advance {s s' : Shared} (h : s.Safe) {j : Nat} {c : FinishCall} (hc : s.calls[j]? = some c)
    (hs : s.advance j c = some s') : s'.Safe := by
  have hmem : c ∈ s.calls := List.mem_of_getElem? hc
  -- a call of the new list is an old one or the one that went on
  have hcalls : ∀ {c' c'' : FinishCall}, c' ∈ s.calls.set j c'' → c' ∈ s.calls ∨ c' = c'' :=
    fun hin => List.mem_or_eq_of_mem_set hin
  obtain ⟨out, phase, foundStarted⟩ := c
  unfold Shared.advance at hs
  cases phase with
  | result =>
      cases hs
      have hrun : (s.run.setResult out).subs = s.run.subs ∧ (s.run.setResult out).state = s.run.state := by
        cases out <;> exact ⟨rfl, rfl⟩
      refine ⟨fun sub hsub => h.subs sub (hrun.1 ▸ hsub), fun c' hc' hstarted => ?_,
        fun c' hc' hended hstarted sub hsub => ?_⟩
      · rw [hrun.2]
        rcases hcalls hc' with hin | rfl
        · exact h.terminal c' hin hstarted
        · exact h.terminal _ hmem hstarted
      · rcases hcalls hc' with hin | rfl
        · exact h.deserted c' hin hended hstarted sub (hrun.1 ▸ hsub)
        · cases hended
  | state =>
      cases hs
      refine ⟨h.subs.transition _, fun c' hc' hstarted => ?_, fun c' hc' hended hstarted => ?_⟩
      · rcases hcalls hc' with hin | rfl
        · exact Run.terminal_transition (h.terminal c' hin hstarted) _
        · exact Run.terminal_of_started (of_decide_eq_true hstarted) out
      · rcases hcalls hc' with hin | rfl
        · exact (h.deserted c' hin hended hstarted).transition _
        · cases hended
  | publish =>
      cases hs
      refine ⟨(h.subs.publish _).closeSubs, fun c' hc' hstarted => ?_,
        fun c' _ _ _ => Run.deserted_closeSubs _⟩
      rcases hcalls hc' with hin | rfl
      · exact h.terminal c' hin hstarted
      · exact h.terminal _ hmem hstarted
  | ended => cases hs

/-- **Every step keeps the channels safe.** -/
theorem Shared.Safe.step {s s' : Shared} {a : CallAction} (h : s.Safe) (hs : s.step a = some s') : s'.Safe := by
  cases a with
  | subscribe =>
      cases hs
      obtain ⟨_, heq, _, _⟩ := s.run.subscribe_spec
      exact h.used h.subs.subscribe (fun hterm => by rw [heq]; exact hterm) fun hd hterm => hd.subscribe hterm
  | unsub i => cases hs; exact h.used (h.subs.unsub i) id fun hd _ => hd.unsub i
  | recv i => cases hs; exact h.used (h.subs.recv i) id fun hd _ => hd.recv i
  | addStep st =>
      cases hs
      exact h.used (Run.Safe.publish (r := { s.run with steps := s.run.steps ++ [st] }) h.subs _) id
        fun hd _ => Run.Deserted.publish (r := { s.run with steps := s.run.steps ++ [st] }) hd _
  | transition next =>
      cases hs
      exact h.used (h.subs.transition next) (fun hterm => Run.terminal_transition hterm next)
        fun hd _ => hd.transition next
  | finish out =>
      cases hs
      refine ⟨h.subs, fun c hc hstarted => ?_, fun c hc hended hstarted => ?_⟩
      · rcases List.mem_append.mp hc with hc | hc
        · exact h.terminal c hc hstarted
        · rw [List.mem_singleton.mp hc] at hstarted; cases hstarted
      · rcases List.mem_append.mp hc with hc | hc
        · exact h.deserted c hc hended hstarted
        · rw [List.mem_singleton.mp hc] at hstarted; cases hstarted
  | advance j =>
      unfold Shared.step at hs
      dsimp only at hs
      split at hs
      · cases hs
      · rename_i c hc; exact h.advance hc hs

/-- A finishing call has returned that found the run started. -/
def Shared.Finished (s : Shared) : Prop := ∃ c ∈ s.calls, c.phase = .ended ∧ c.foundStarted = true

/-- A call that has returned stays so. -/
theorem Shared.Finished.step {s s' : Shared} {a : CallAction} (h : s.Finished) (hs : s.step a = some s') :
    s'.Finished := by
  obtain ⟨c, hc, hended, hstarted⟩ := h
  cases a with
  | finish out => cases hs; exact ⟨c, List.mem_append_left _ hc, hended, hstarted⟩
  | advance j =>
      unfold Shared.step at hs
      dsimp only at hs
      split at hs
      · cases hs
      · rename_i c' hc'
        obtain ⟨p, hp, rfl⟩ := Option.map_eq_some_iff.mp hs
        obtain ⟨i, hi⟩ := List.mem_iff_getElem?.mp hc
        refine ⟨c, List.mem_iff_getElem?.mpr ⟨i, ?_⟩, hended, hstarted⟩
        by_cases hij : j = i
        · -- a call that has returned takes no further section
          subst hij
          cases Option.some.inj (hi.symm.trans hc')
          rw [hended] at hp
          cases hp
        · exact (List.getElem?_set_ne hij).trans hi
  | _ => cases hs; exact ⟨c, hc, hended, hstarted⟩

/-- **Subscriber channels are used safely**, however the callers of a run interleave: no channel is closed
    twice, none is sent on once it is closed, and no send blocks under the lock. Once a finishing call that found
    the run started has returned, no channel is registered, then or ever again. -/
theorem subscribers_safe (id : String) (mode : Mode) (flow : String) {as : List CallAction} {s : Shared}
    (h : exec Shared.step (Shared.start id mode flow) as = some s) :
    (∀ sub ∈ s.run.subs, sub.chan.fault = none) ∧
      ∀ c ∈ s.calls, c.phase = .ended → c.foundStarted = true →
        ∀ (bs : List CallAction) (t : Shared), exec Shared.step s bs = some t →
          ∀ sub ∈ t.run.subs, sub.registered = false := by
  have hsafe : s.Safe :=
    exec_invariant (fun _ _ _ hi hs => Shared.Safe.step hi hs) as (Shared.safe_start id mode flow) h
  refine ⟨fun sub hsub => (hsafe.subs sub hsub).fault, fun c hc hended hstarted bs t ht => ?_⟩
  have hsafe' : t.Safe := exec_invariant (fun _ _ _ hi hs => Shared.Safe.step hi hs) bs hsafe ht
  obtain ⟨c', hc', hended', hstarted'⟩ : t.Finished :=
    exec_invariant (fun _ _ _ hi hs => Shared.Finished.step hi hs) bs ⟨c, hc, hended, hstarted⟩ ht
  exact hsafe'.deserted c' hc' hended' hstarted'

/-- What a finished run with one subscriber has been through. -/
def finishedRun : List CallAction :=
  [.transition .running, .subscribe, .finish (.ok "r"), .advance 0, .advance 0, .advance 0, .unsub 0]

theorem subscribers_safe_sample : ∃ s,
    exec Shared.step (Shared.start "run-1" modeAnonymous "") finishedRun = some s ∧
    (∀ sub ∈ s.run.subs, sub.chan.fault = none) ∧
      ∀ c ∈ s.calls, c.phase = .ended → c.foundStarted = true →
        ∀ (bs : List CallAction) (t : Shared), exec Shared.step s bs = some t →
          ∀ sub ∈ t.run.subs, sub.registered = false := by
  have hrun : (exec Shared.step (Shared.start "run-1" modeAnonymous "") finishedRun).isSome = true := by
    decide +kernel
  obtain ⟨s, hs⟩ := Option.isSome_iff_exists.mp hrun
  exact ⟨s, hs, subscribers_safe "run-1" modeAnonymous "" hs⟩

/-- `finishOK` on a run that was never started: its transition is refused, and after it has returned a
    subscriber is registered. -/
theorem registered_after_finish : ∃ s t,
    exec Shared.step (Shared.start "run-1" modeAnonymous "")
      [.finish (.ok "r"), .advance 0, .advance 0, .advance 0] = some s ∧
    (∃ c ∈ s.calls, c.phase = .ended) ∧ exec Shared.step s [.subscribe] = some t ∧
    ∃ sub ∈ t.run.subs, sub.registered = true := by
  have hrun : (exec Shared.step (Shared.start "run-1" modeAnonymous "")
      [.finish (.ok "r"), .advance 0, .advance 0, .advance 0]).map (fun s =>
        (s.calls.map FinishCall.phase, s.run.subscribe.subs.map Sub.registered))
          = some ([.ended], [true]) := by decide +kernel
  obtain ⟨s, hs, hpair⟩ := Option.map_eq_some_iff.mp hrun
  obtain ⟨hcalls, hsubs⟩ := Prod.mk.inj hpair
  obtain ⟨c, hc, hended⟩ := List.mem_map.mp (hcalls ▸ List.mem_singleton_self Phase.ended)
  obtain ⟨sub, hsub, hreg⟩ := List.mem_map.mp (hsubs ▸ List.mem_singleton_self true)
  exact ⟨s, _, hs, ⟨c, hc, hended⟩, rfl, sub, hsub, hreg⟩

/-! ## The goroutine of a run -/

section Started

variable {X : Externals}

/-- The finishing call that the goroutine is in. It makes its transition in state running. -/
def Ctl.finishCalls : Ctl X → List FinishCall
  | .finishing out .result => [{ out, phase := .result, foundStarted := false }]
  | .finishing out .state => [{ out, phase := .state, foundStarted := false }]
  | .finishing out .publish => [{ out, phase := .publish, foundStarted := true }]
  | .finishing out .ended => [{ out, phase := .ended, foundStarted := true }]
  | _ => []

/-- A task as one of the callers of its run. -/
def Task.shared (t : Task X) : Shared := { run := t.run, calls := t.ctl.finishCalls }

/-- **Every step of the goroutine and of its subscribers** is at most one step of the callers. -/
theorem TaskStep.shared {rn : Runner X} {t t' : Task X} {a : RunAction} (hc : Consistent t)
    (hs : TaskStep rn t a t') : ∃ bs, exec Shared.step t.shared bs = some t'.shared := by
  have hstate := hc.state
  -- a step of the goroutine outside the critical sections of the run
  have moved : ∀ {ctl : Ctl X} {answer : Option NodeReply} {put : Option (StoredRun X)},
      ctl.finishCalls = t.ctl.finishCalls →
        ∃ bs, exec Shared.step t.shared bs = some (Task.shared ⟨t.run, ctl, answer, put⟩) := fun heq =>
    ⟨[], by rw [exec_nil, Task.shared, Task.shared, heq]⟩
  -- a call of `finishOK` or `finishErr`
  have called : ∀ {out : Except String String} {answer : Option NodeReply} {put : Option (StoredRun X)},
      t.ctl.finishCalls = [] → ∃ bs, exec Shared.step t.shared bs
        = some (Task.shared ⟨t.run, .finishing out .result, answer, put⟩) := by
    intro out answer put hnone
    refine ⟨[.finish out], ?_⟩
    rw [Task.shared, hnone]
    rfl
  cases hs with
  | count h => exact moved (by rw [h]; rfl)
  | launch h => exact ⟨[.transition .running], by rw [Task.shared, h]; rfl⟩
  | call h _ => exact moved (by rw [h]; rfl)
  | refuse h _ _ => exact moved (by rw [h]; rfl)
  | reply h _ => exact moved (by rw [h]; rfl)
  | @emit st _ _ h => exact ⟨[.addStep st], by rw [Task.shared, h]; rfl⟩
  | runFailed h => exact called (by rw [h]; rfl)
  | runReturned h => exact moved (by rw [h]; rfl)
  | putRefused h _ => exact called (by rw [h]; rfl)
  | inserted h _ => exact moved (by rw [h]; rfl)
  | returned h => exact called (by rw [h]; rfl)
  | notPersisted h => exact called (by rw [h]; rfl)
  | setResult h => exact ⟨[.advance 0], by rw [Task.shared, h]; rfl⟩
  | @setState out h =>
      have hrunning : t.run.state = .running := by rw [hstate, h]; rfl
      refine ⟨[.advance 0], ?_⟩
      rw [Task.shared, h]
      show some ({ run := _, calls := [{ out, phase := .publish, foundStarted := _ }] } : Shared) = _
      rw [if_pos rfl, hrunning]
      rfl
  | publish h => exact ⟨[.advance 0], by rw [Task.shared, h]; rfl⟩
  | subscribe => exact ⟨[.subscribe], rfl⟩
  | @unsub i => exact ⟨[.unsub i], rfl⟩
  | @recv i => exact ⟨[.recv i], rfl⟩

/-- **The runs that `Start` starts** are used safely, and once one has ended nobody is registered any more. -/
theorem started_subscribers_safe (rn : Runner X) (id : String) (mode : Mode) (flow : String)
    {as : List RunAction} {t : Task X} (h : exec (Task.step rn) (Task.start id mode flow) as = some t) :
    t.run.Safe ∧ (t.ctl.isEnded = true → t.run.Deserted) := by
  have hinv : Consistent t ∧ t.shared.Safe := by
    refine exec_invariant (P := fun t => Consistent t ∧ t.shared.Safe) (fun t a t' hi hs => ?_) as
      ⟨consistent_start id mode flow, Shared.safe_start id mode _⟩ h
    obtain ⟨bs, hbs⟩ := (task_step hs).shared hi.1
    exact ⟨hi.1.step (task_step hs), exec_invariant (fun _ _ _ hi hs => Shared.Safe.step hi hs) bs hi.2 hbs⟩
  refine ⟨hinv.2.subs, fun hended => ?_⟩
  obtain ⟨out, hctl⟩ := Ctl.isEnded_iff.mp hended
  have hcall : ({ out, phase := .ended, foundStarted := true } : FinishCall) ∈ t.shared.calls := by
    rw [Task.shared, hctl]
    exact List.mem_singleton_self _
  exact hinv.2.deserted _ hcall rfl rfl

end Started

end Api
end InfrixPlayground
