import InfrixPlayground.Api.RunTask

/-!
# `Api.RunEvents` — what the subscribers of a run receive

A run publishes at most twelve events, and a channel is made with sixteen places more than the history it
is prefilled with: a registered subscriber misses nothing, however slowly it reads (`lossless`). The
stream it reads ends with the run's final event, except for a subscriber that comes between the two last
critical sections of `finishOK` or `finishErr`, when the run is over and has not said so
(`ends_final_iff`).
-/

namespace InfrixPlayground
namespace Api

open Worker Machine

variable {X : Externals}

/-! ## How many events are still to come -/

/-- The most events a run can still publish while its goroutine stands here. -/
def Ctl.budget : Ctl X → Nat
  | .registered => 12
  | .counted => 12
  | .executing => 11
  | .waiting _ => 11
  | .emitting todo _ => todo.length + 2
  | .storing _ => 2
  | .persisting _ => 2
  | .finishing _ .result => 2
  | .finishing _ .state => 2
  | .finishing _ .publish => 1
  | .finishing _ .ended => 0

/-- What a channel owes its subscriber, given the run's history: nothing was dropped, nothing panicked
    or blocked, and while it is registered it is open and has carried the whole history. -/
structure Sub.Good (history : List Event) (s : Sub) : Prop where
  cap : 16 ≤ s.chan.cap
  dropped : s.chan.dropped = []
  fault : s.chan.fault = none
  isOpen : s.registered = true → s.chan.closed = false
  carries : s.registered = true → s.chan.sent = history
  live : s.registered = true → s.closedBy = none

/-- A channel with sixteen places more than its subscriber has seen takes one more event. -/
theorem Sub.Good.offer {history : List Event} {s : Sub} (h : s.Good history)
    (hroom : history.length < 16) (e : Event) : (Run.offer e s).Good (history ++ [e]) := by
  unfold Run.offer
  by_cases hr : s.registered = true
  · have hlt : s.chan.buf.length < s.chan.cap := by
      have hbuf := s.chan.buf_length_le_sent
      rw [h.carries hr] at hbuf
      have := h.cap
      omega
    rw [if_pos hr, Chan.trySend_room (h.isOpen hr) hlt]
    exact ⟨h.cap, h.dropped, h.fault, h.isOpen,
      fun _ => by rw [Chan.sent_push, h.carries hr], h.live⟩
  · rw [if_neg hr]
    exact ⟨h.cap, h.dropped, h.fault, fun h' => absurd h' hr, fun h' => absurd h' hr,
      fun h' => absurd h' hr⟩

theorem Sub.Good.dismiss {history : List Event} {s : Sub} (h : s.Good history) (who : Closer) :
    (Run.dismiss who s).Good history := by
  unfold Run.dismiss
  by_cases hr : s.registered = true
  · rw [if_pos hr, Chan.close_open (h.isOpen hr)]
    exact ⟨h.cap, h.dropped, h.fault, nofun, nofun, nofun⟩
  · rw [if_neg hr]; exact h

theorem Sub.Good.recv {history : List Event} {s : Sub} (h : s.Good history) :
    ({ s with chan := s.chan.recv } : Sub).Good history :=
  ⟨by rw [Chan.cap_recv]; exact h.cap, by rw [Chan.dropped_recv]; exact h.dropped,
    by rw [Chan.fault_recv]; exact h.fault, fun hr => by rw [Chan.closed_recv]; exact h.isOpen hr,
    fun hr => by rw [Chan.sent_recv]; exact h.carries hr, h.live⟩

/-- A new channel takes the whole history before anyone reads from it. -/
theorem prefill (history : List Event) :
    let ch := history.foldl Chan.send (Chan.make (history.length + 16))
    ch.sent = history ∧ ch.closed = false ∧ ch.dropped = [] ∧ ch.fault = none ∧ 16 ≤ ch.cap := by
  obtain ⟨h1, h2, h3, h4, h5⟩ := Chan.foldl_send_room history (Chan.make (history.length + 16)) rfl
    (by show 0 + history.length ≤ history.length + 16; omega)
  refine ⟨h1, h2, h3, h4, ?_⟩
  rw [h5]
  show 16 ≤ history.length + 16
  omega

/-- Every channel of the run is good. -/
def Run.Good (r : Run) : Prop := ∀ s ∈ r.subs, s.Good r.history

theorem Run.Good.publish {r : Run} (h : r.Good) (hroom : r.history.length < 16) (e : Event) :
    (r.publishLocked e).Good := by
  intro s hs
  obtain ⟨s₀, hs₀, rfl⟩ := List.mem_map.mp hs
  exact (h s₀ hs₀).offer hroom e

theorem Run.Good.closeSubs {r : Run} (h : r.Good) : r.closeSubsLocked.Good := by
  intro s hs
  obtain ⟨s₀, hs₀, rfl⟩ := List.mem_map.mp hs
  exact (h s₀ hs₀).dismiss .runSide

/-- An element of a list modified at one place is an old one or the modified one. -/
theorem mem_modify {α : Type} {f : α → α} {x : α} : ∀ {l : List α} {i : Nat}, x ∈ l.modify i f →
    x ∈ l ∨ ∃ y ∈ l, x = f y := by
  intro l
  induction l with
  | nil => intro i h; simp at h
  | cons y l ih =>
      intro i h
      cases i with
      | zero =>
          rw [List.modify_zero_cons] at h
          rcases List.mem_cons.mp h with rfl | h
          · exact .inr ⟨y, List.mem_cons_self .., rfl⟩
          · exact .inl (List.mem_cons_of_mem y h)
      | succ i =>
          rw [List.modify_succ_cons] at h
          rcases List.mem_cons.mp h with rfl | h
          · exact .inl (List.mem_cons_self ..)
          · rcases ih h with h | ⟨z, hz, rfl⟩
            · exact .inl (List.mem_cons_of_mem y h)
            · exact .inr ⟨z, List.mem_cons_of_mem y hz, rfl⟩

theorem Run.Good.unsub {r : Run} (h : r.Good) (i : Nat) : (r.unsub i).Good := by
  intro s hs
  rcases mem_modify hs with hs | ⟨s₀, hs₀, rfl⟩
  · exact h s hs
  · exact (h s₀ hs₀).dismiss .unsub

theorem Run.Good.recv {r : Run} (h : r.Good) (i : Nat) : (r.recv i).Good := by
  intro s hs
  rcases mem_modify hs with hs | ⟨s₀, hs₀, rfl⟩
  · exact h s hs
  · exact (h s₀ hs₀).recv

/-- The channel `Subscribe` hands out. -/
theorem mem_subscribe {r : Run} {s : Sub} (hs : s ∈ r.subscribe.subs) : s ∈ r.subs ∨
    (s.chan.sent = r.history ∧ s.Good r.history ∧
      s.registered = !r.state.terminal ∧ s.closedBy = if r.state.terminal then some .runSide else none) := by
  obtain ⟨h1, h2, h3, h4, h5⟩ := prefill r.history
  unfold Run.subscribe at hs
  dsimp only at hs
  split at hs
  · rename_i ht
    rcases List.mem_append.mp hs with hs | hs
    · exact .inl hs
    · rw [List.mem_singleton.mp hs, Chan.close_open h2, ht]
      exact .inr ⟨h1, ⟨h5, h3, h4, nofun, nofun, nofun⟩, rfl, rfl⟩
  · rename_i ht
    rw [Bool.not_eq_true] at ht
    rcases List.mem_append.mp hs with hs | hs
    · exact .inl hs
    · rw [List.mem_singleton.mp hs, ht]
      exact .inr ⟨h1, ⟨h5, h3, h4, fun _ => h2, fun _ => h1, fun _ => rfl⟩, rfl, rfl⟩

theorem Run.Good.subscribe {r : Run} (h : r.Good) : r.subscribe.Good := by
  obtain ⟨_, heq⟩ := r.subscribe_eq
  have hhist : r.subscribe.history = r.history := by rw [heq]
  intro s hs
  rw [hhist]
  rcases mem_subscribe hs with hs | ⟨_, hgood, _⟩
  · exact h s hs
  · exact hgood

/-- **The invariant of the stream.** The events published and those still to come fit into a channel's
    spare places, and every channel is good. -/
structure Lossless (t : Task X) : Prop where
  budget : t.run.history.length + t.ctl.budget ≤ 12
  subs : t.run.Good

theorem lossless_start (id : String) (mode : Mode) (flow : String) :
    Lossless (Task.start id mode flow : Task X) :=
  ⟨Nat.le_refl 12, fun _ hs => absurd hs List.not_mem_nil⟩

/-- A publication that the budget has room for, by a run with the channels and the history of `t`'s. -/
theorem Lossless.publish {t : Task X} (h : Lossless t) {ctl : Ctl X}
    (hpay : ctl.budget + 1 ≤ t.ctl.budget) (e : Event) {r : Run} (hsubs : r.subs = t.run.subs)
    (hhist : r.history = t.run.history) (answer : Option NodeReply) (put : Option (StoredRun X)) :
    Lossless ⟨r.publishLocked e, ctl, answer, put⟩ := by
  have hb := h.budget
  refine ⟨?_, Run.Good.publish ?_ (by rw [hhist]; omega) e⟩
  · show (r.history ++ [e]).length + ctl.budget ≤ 12
    rw [List.length_append, List.length_singleton, hhist]
    omega
  · intro s hs
    rw [hhist]
    exact h.subs s (hsubs ▸ hs)

/-- **Every step keeps the stream lossless.** -/
theorem Lossless.step {rn : Runner X} {t t' : Task X} {a : RunAction} (hc : Consistent t)
    (h : Lossless t) (hs : TaskStep rn t a t') : Lossless t' := by
  have hb := h.budget
  -- a step that moves the goroutine on without publishing
  have moved : ∀ {ctl : Ctl X} {answer : Option NodeReply} {put : Option (StoredRun X)},
      ctl.budget ≤ t.ctl.budget → Lossless ⟨t.run, ctl, answer, put⟩ := fun hle =>
    ⟨(Nat.add_le_add_left hle _).trans hb, h.subs⟩
  have emittedLe : ∀ {post : NodeCall → NodeReply} {verifiedAt : String} {effs : List (Effect X)}
      {res : Except String (RunResult X)},
      rn.run post verifiedAt t.run.mode t.run.flow = (effs, res) → (emitted effs).length + 2 ≤ 11 := by
    intro post verifiedAt effs res hr
    have hlen := length_emitted_run_le rn post verifiedAt t.run.mode t.run.flow
    rw [hr] at hlen
    exact Nat.add_le_add_right hlen 2
  cases hs with
  | count hctl => exact moved (by rw [hctl]; exact Nat.le_refl _)
  | launch hctl =>
      have hcan : t.run.state.canTransition .running = true := by rw [hc.state, hctl]; rfl
      rw [Run.transition_of_can hcan]
      exact h.publish (by rw [hctl]; exact Nat.le_refl _) (.state .running)
        (r := { t.run with state := .running }) rfl rfl _ _
  | call hctl hp => exact moved (by rw [hctl]; exact Nat.le_refl _)
  | refuse hctl hp hr => exact moved (by rw [hctl]; exact emittedLe hr)
  | reply hctl hr => exact moved (by rw [hctl]; exact emittedLe hr)
  | @emit s todo res hctl =>
      have hpay : (Ctl.emitting todo res).budget + 1 ≤ t.ctl.budget := by
        rw [hctl]
        show todo.length + 2 + 1 ≤ todo.length + 1 + 2
        omega
      exact h.publish hpay (.step s) (r := { t.run with steps := t.run.steps ++ [s] }) rfl rfl _ _
  | runFailed hctl => exact moved (by rw [hctl]; exact Nat.le_refl _)
  | runReturned hctl => exact moved (by rw [hctl]; exact Nat.le_refl _)
  | putRefused hctl hp => exact moved (by rw [hctl]; exact Nat.le_refl _)
  | inserted hctl hp => exact moved (by rw [hctl]; exact Nat.le_refl _)
  | returned hctl => exact moved (by rw [hctl]; exact Nat.le_refl _)
  | notPersisted hctl => exact moved (by rw [hctl]; exact Nat.le_refl _)
  | @setResult out hctl =>
      rw [hctl] at hb
      have heq : (t.run.setResult out).subs = t.run.subs ∧
          (t.run.setResult out).history = t.run.history := by cases out <;> exact ⟨rfl, rfl⟩
      refine ⟨by show (t.run.setResult out).history.length + _ ≤ 12; rw [heq.2]; exact hb, ?_⟩
      intro s hs
      rw [heq.2]
      exact h.subs s (heq.1 ▸ hs)
  | @setState out hctl =>
      have hcan : t.run.state.canTransition (Run.finalState out) = true := by
        rw [hc.state, hctl]; exact Run.canTransition_final out
      rw [Run.transition_of_can hcan]
      exact h.publish (by rw [hctl]; exact Nat.le_refl _) (.state (Run.finalState out))
        (r := { t.run with state := Run.finalState out }) rfl rfl _ _
  | @publish out hctl =>
      have hlast : Lossless
          ⟨t.run.publishLocked (Run.finalEvent out), .finishing out .ended, t.answer, t.put⟩ :=
        h.publish (by rw [hctl]; exact Nat.le_refl _) (Run.finalEvent out) rfl rfl _ _
      exact ⟨hlast.budget, hlast.subs.closeSubs⟩
  | subscribe =>
      obtain ⟨s, heq⟩ := t.run.subscribe_eq
      refine ⟨?_, h.subs.subscribe⟩
      show t.run.subscribe.history.length + _ ≤ 12
      rw [heq]
      exact hb
  | unsub => exact ⟨hb, h.subs.unsub _⟩
  | recv => exact ⟨hb, h.subs.recv _⟩

/-- **No event is lost, duplicated or reordered.** At every point of every run, nothing has been dropped
    from any channel `Subscribe` has handed out, and what a registered subscriber has received, followed
    by what is buffered for it, is the run's history. -/
theorem lossless (rn : Runner X) (id : String) (mode : Mode) (flow : String) {as : List RunAction}
    {t : Task X} (h : exec (Task.step rn) (Task.start id mode flow) as = some t) :
    ∀ s ∈ t.run.subs, s.chan.dropped = [] ∧
      (s.registered = true → s.chan.taken ++ s.chan.buf = t.run.history) := by
  have hinv : Consistent t ∧ Lossless t :=
    exec_invariant (P := fun t => Consistent t ∧ Lossless t)
      (fun _ _ _ hi hs => ⟨hi.1.step (task_step hs), hi.2.step hi.1 (task_step hs)⟩) as
      ⟨consistent_start id mode flow, lossless_start id mode flow⟩ h
  intro s hs
  have hgood := hinv.2.subs s hs
  exact ⟨hgood.dropped, hgood.carries⟩

/-- A subscriber that comes when the run is registered, and reads one event. -/
theorem lossless_sample : ∃ t, exec (Task.step sampleNode) (Task.start "run-1" modeAnonymous "")
    (.subscribe :: sampleActions ++ [.recv 0]) = some t ∧ t.run.subs.length = 1 ∧
      ∀ s ∈ t.run.subs, s.chan.dropped = [] ∧
        (s.registered = true → s.chan.taken ++ s.chan.buf = t.run.history) := by
  have hrun : (exec (Task.step sampleNode) (Task.start "run-1" modeAnonymous "")
      (.subscribe :: sampleActions ++ [.recv 0])).map (fun t => t.run.subs.length) = some 1 := by
    decide +kernel
  obtain ⟨t, ht, hlen⟩ := Option.map_eq_some_iff.mp hrun
  exact ⟨t, ht, hlen, lossless sampleNode "run-1" modeAnonymous "" ht⟩

/-! ## The end of the stream -/

/-- The event a run that is over ends its stream with. -/
def Run.terminalEvent (r : Run) : Option Event :=
  match r.state with
  | .complete => some (.done r.receiptID)
  | .failed => some (.error r.errMsg)
  | _ => none

/-- Every channel the run side has closed ends with the run's terminal event. -/
def Run.EndsFinal (r : Run) : Prop :=
  ∀ s ∈ r.subs, s.closedBy = some .runSide →
    ∃ e, r.terminalEvent = some e ∧ s.chan.sent.getLast? = some e

/-- Not a `Subscribe` between the transition to the final state and the publication of the final event. -/
def OutsideGap (t : Task X) (a : RunAction) : Prop :=
  a = .subscribe → ∀ out, t.ctl ≠ .finishing out .publish

/-- What the stream says near the end of a run, and that no channel is closed before it. -/
structure Streams (t : Task X) : Prop where
  consistent : Consistent t
  lossless : Lossless t
  gap : ∀ out, t.ctl = .finishing out .publish →
    t.run.history.getLast? = some (.state (Run.finalState out))
  ended : ∀ out, t.ctl = .finishing out .ended → t.run.history.getLast? = some (Run.finalEvent out)
  early : t.ctl.state.terminal = false → ∀ s ∈ t.run.subs, s.closedBy ≠ some .runSide

theorem closedBy_offer (e : Event) (s : Sub) : (Run.offer e s).closedBy = s.closedBy := by
  unfold Run.offer; split <;> rfl

/-- Publishing closes nothing. -/
theorem early_publish {r : Run} {e : Event} (h : ∀ s ∈ r.subs, s.closedBy ≠ some .runSide) :
    ∀ s ∈ (r.publishLocked e).subs, s.closedBy ≠ some .runSide := by
  intro s hs
  obtain ⟨s₀, hs₀, rfl⟩ := List.mem_map.mp hs
  rw [closedBy_offer]
  exact h s₀ hs₀

theorem early_modify {subs : List Sub} {i : Nat} {f : Sub → Sub}
    (hf : ∀ s, (f s).closedBy = s.closedBy ∨ (f s).closedBy = some .unsub)
    (h : ∀ s ∈ subs, s.closedBy ≠ some .runSide) :
    ∀ s ∈ subs.modify i f, s.closedBy ≠ some .runSide := by
  intro s hs
  rcases mem_modify hs with hs | ⟨s₀, hs₀, rfl⟩
  · exact h s hs
  · rcases hf s₀ with he | he <;> rw [he]
    · exact h s₀ hs₀
    · decide

theorem closedBy_dismiss_unsub (s : Sub) :
    (Run.dismiss .unsub s).closedBy = s.closedBy ∨ (Run.dismiss .unsub s).closedBy = some .unsub := by
  unfold Run.dismiss
  split
  · exact .inr rfl
  · exact .inl rfl

/-- A run that is not over closes no channel it hands out. -/
theorem early_subscribe {r : Run} (hr : r.state.terminal = false)
    (h : ∀ s ∈ r.subs, s.closedBy ≠ some .runSide) :
    ∀ s ∈ r.subscribe.subs, s.closedBy ≠ some .runSide := by
  intro s hs
  rcases mem_subscribe hs with hs | ⟨_, _, _, hby⟩
  · exact h s hs
  · rw [hby, hr]; decide

theorem streams_start (id : String) (mode : Mode) (flow : String) :
    Streams (Task.start id mode flow : Task X) :=
  ⟨consistent_start id mode flow, lossless_start id mode flow, nofun, nofun,
    fun _ _ hs => absurd hs List.not_mem_nil⟩

/-- **Every step keeps the shape of the stream.** -/
theorem Streams.step {rn : Runner X} {t t' : Task X} {a : RunAction} (h : Streams t)
    (hs : TaskStep rn t a t') : Streams t' := by
  have hc' := h.consistent.step hs
  have hl' := h.lossless.step h.consistent hs
  have hearly := h.early
  cases hs with
  | count hc => rw [hc] at hearly; exact ⟨hc', hl', nofun, nofun, hearly⟩
  | launch hc =>
      rw [hc] at hearly
      have hcan : t.run.state.canTransition .running = true := by
        rw [h.consistent.state, hc]; rfl
      rw [Run.transition_of_can hcan] at hc' hl' ⊢
      refine ⟨hc', hl', nofun, nofun, fun _ => early_publish (hearly rfl)⟩
  | call hc hp => rw [hc] at hearly; exact ⟨hc', hl', nofun, nofun, hearly⟩
  | refuse hc hp hr => rw [hc] at hearly; exact ⟨hc', hl', nofun, nofun, hearly⟩
  | reply hc hr => rw [hc] at hearly; exact ⟨hc', hl', nofun, nofun, hearly⟩
  | emit hc =>
      rw [hc] at hearly
      exact ⟨hc', hl', nofun, nofun, fun _ => early_publish (hearly rfl)⟩
  | runFailed hc => rw [hc] at hearly; exact ⟨hc', hl', nofun, nofun, hearly⟩
  | runReturned hc => rw [hc] at hearly; exact ⟨hc', hl', nofun, nofun, hearly⟩
  | putRefused hc hp => rw [hc] at hearly; exact ⟨hc', hl', nofun, nofun, hearly⟩
  | inserted hc hp => rw [hc] at hearly; exact ⟨hc', hl', nofun, nofun, hearly⟩
  | returned hc =>
      rw [hc] at hearly
      exact ⟨hc', hl', (fun _ he => by cases he), (fun _ he => by cases he), hearly⟩
  | notPersisted hc => rw [hc] at hearly; exact ⟨hc', hl', nofun, nofun, hearly⟩
  | @setResult out hc =>
      rw [hc] at hearly
      refine ⟨hc', hl', (fun _ he => by cases he), (fun _ he => by cases he), fun _ => ?_⟩
      cases out <;> exact hearly rfl
  | @setState out hc =>
      have hcan : t.run.state.canTransition (Run.finalState out) = true := by
        rw [h.consistent.state, hc]; exact Run.canTransition_final out
      rw [Run.transition_of_can hcan] at hc' hl' ⊢
      refine ⟨hc', hl', ?_, nofun, ?_⟩
      · intro out' hout; cases hout; exact List.getLast?_concat
      · -- the run is over from here on: nothing is claimed of streams closed early
        intro hterm
        have hnot : (Run.finalState out).terminal = false := hterm
        rw [Run.terminal_final] at hnot
        exact absurd hnot (by decide)
  | @publish out hc =>
      refine ⟨hc', hl', nofun, ?_, ?_⟩
      · intro out' hout; cases hout; exact List.getLast?_concat
      · intro hterm
        have hnot : (Run.finalState out).terminal = false := hterm
        rw [Run.terminal_final] at hnot
        exact absurd hnot (by decide)
  | subscribe =>
      obtain ⟨s, heq⟩ := t.run.subscribe_eq
      have hhist : t.run.subscribe.history = t.run.history := by rw [heq]
      refine ⟨hc', hl', ?_, ?_, ?_⟩
      · intro out hout; show t.run.subscribe.history.getLast? = _; rw [hhist]; exact h.gap out hout
      · intro out hout; show t.run.subscribe.history.getLast? = _; rw [hhist]; exact h.ended out hout
      · intro hterm
        exact early_subscribe (by rw [h.consistent.state]; exact hterm) (hearly hterm)
  | unsub =>
      exact ⟨hc', hl', h.gap, h.ended,
        fun hterm => early_modify closedBy_dismiss_unsub (hearly hterm)⟩
  | recv =>
      exact ⟨hc', hl', h.gap, h.ended, fun hterm => early_modify (fun _ => .inl rfl) (hearly hterm)⟩

/-- Before the run is over, no stream has ended and no `Subscribe` comes too late. -/
theorem endsFinal_of_early {r : Run} (h : ∀ s ∈ r.subs, s.closedBy ≠ some .runSide) : r.EndsFinal :=
  fun s hs hby => absurd hby (h s hs)

/-- The terminal event of a run that is in its final state. -/
theorem terminalEvent_of_final {r : Run} {out : Except String String}
    (hstate : r.state = Run.finalState out) (hid : r.receiptID = receiptOf (some out))
    (herr : r.errMsg = messageOf (some out)) : r.terminalEvent = some (Run.finalEvent out) := by
  unfold Run.terminalEvent
  cases out with
  | ok id => rw [hstate, hid]; rfl
  | error e => rw [hstate, herr]; rfl

/-- **The last critical section** ends every registered stream with the final event, and leaves the
    streams that were closed before as they are. -/
theorem endsFinal_publishFinal {t : Task X} {out : Except String String} (h : Streams t)
    (hc : t.ctl = .finishing out .publish) : (t.run.publishFinal out).EndsFinal ↔ t.run.EndsFinal := by
  have hev : t.run.terminalEvent = some (Run.finalEvent out) :=
    terminalEvent_of_final (by rw [h.consistent.state, hc]; rfl)
      (by rw [h.consistent.receiptID, hc]; rfl) (by rw [h.consistent.errMsg, hc]; rfl)
  have hgood : (t.run.publishLocked (Run.finalEvent out)).Good := by
    have hb := h.lossless.budget
    rw [hc] at hb
    exact h.lossless.subs.publish (by
      have : t.run.history.length + 1 ≤ 12 := hb
      omega) _
  constructor
  · intro hfinal s hs hby
    -- a stream closed before is not registered, so the last section does not touch it
    have hreg : s.registered = false := by
      cases hr : s.registered with
      | false => rfl
      | true => rw [(h.lossless.subs s hs).live hr] at hby; exact absurd hby (by simp)
    have hsame : Run.dismiss .runSide (Run.offer (Run.finalEvent out) s) = s := by
      simp [Run.offer, Run.dismiss, hreg]
    exact hfinal s (List.mem_map.mpr
      ⟨Run.offer (Run.finalEvent out) s, List.mem_map.mpr ⟨s, hs, rfl⟩, hsame⟩) hby
  · intro hfinal s hs hby
    obtain ⟨s₁, hs₁, rfl⟩ := List.mem_map.mp hs
    refine ⟨Run.finalEvent out, hev, ?_⟩
    by_cases hr : s₁.registered = true
    · -- a registered channel has room for the event, and nothing is sent after it
      have hcarries := (hgood s₁ hs₁).carries hr
      rw [Run.dismiss, if_pos hr]
      show s₁.chan.close.sent.getLast? = _
      rw [Chan.sent_close, hcarries]
      exact List.getLast?_concat
    · rw [Run.dismiss, if_neg hr] at hby ⊢
      obtain ⟨s₀, hs₀, rfl⟩ := List.mem_map.mp hs₁
      have hr₀ : ¬ s₀.registered = true := by
        intro h0; apply hr; unfold Run.offer; rw [if_pos h0]; exact h0
      rw [Run.offer, if_neg hr₀] at hby ⊢
      obtain ⟨e, he, hlast⟩ := hfinal s₀ hs₀ hby
      rw [hev] at he
      cases he
      exact hlast

/-- On a run that is over, `Subscribe` hands out the history and closes the channel. -/
theorem subscribe_terminal {r : Run} (h : r.state.terminal = true) :
    ∃ s : Sub, r.subscribe = { r with subs := r.subs ++ [s] } ∧ s.closedBy = some .runSide ∧
      s.chan.sent = r.history := by
  obtain ⟨hsent, hopen, _⟩ := prefill r.history
  unfold Run.subscribe
  dsimp only
  rw [if_pos h]
  exact ⟨_, rfl, rfl, by rw [Chan.close_open hopen]; exact hsent⟩

/-- **A new subscriber** ends its stream properly exactly when it does not come in the gap. -/
theorem endsFinal_subscribe {t : Task X} (h : Streams t) :
    t.run.subscribe.EndsFinal ↔ t.run.EndsFinal ∧ ∀ out, t.ctl ≠ .finishing out .publish := by
  cases hterm : t.ctl.state.terminal with
  | false =>
      have hrun : t.run.state.terminal = false := by rw [h.consistent.state]; exact hterm
      refine iff_of_true (endsFinal_of_early (early_subscribe hrun (h.early hterm)))
        ⟨endsFinal_of_early (h.early hterm), fun out hc => ?_⟩
      rw [hc] at hterm
      have hnot : (Run.finalState out).terminal = false := hterm
      rw [Run.terminal_final] at hnot
      exact absurd hnot (by decide)
  | true =>
      obtain ⟨out, hctl⟩ := ctl_of_terminal hterm
      obtain ⟨s, hsub, hby, hsent⟩ := subscribe_terminal (r := t.run)
        (by rw [h.consistent.state]; exact hterm)
      have hev : t.run.terminalEvent = some (Run.finalEvent out) := by
        rcases hctl with hc | hc <;>
          exact terminalEvent_of_final (by rw [h.consistent.state, hc]; rfl)
            (by rw [h.consistent.receiptID, hc]; rfl) (by rw [h.consistent.errMsg, hc]; rfl)
      have hev' : t.run.subscribe.terminalEvent = some (Run.finalEvent out) := by rw [hsub]; exact hev
      have hnew : t.run.subscribe.EndsFinal ↔
          t.run.EndsFinal ∧ t.run.history.getLast? = some (Run.finalEvent out) := by
        unfold Run.EndsFinal
        rw [hev', hev, hsub]
        constructor
        · intro hall
          refine ⟨fun s' hs' => hall s' (List.mem_append_left _ hs'), ?_⟩
          obtain ⟨e, he, hlast⟩ := hall s (List.mem_append_right _ (List.mem_singleton_self s)) hby
          cases he
          rw [← hsent]; exact hlast
        · rintro ⟨hall, hlast⟩ s' hs' hby'
          rcases List.mem_append.mp hs' with hs' | hs'
          · exact hall s' hs' hby'
          · rw [List.mem_singleton.mp hs', hsent]
            exact ⟨_, rfl, hlast⟩
      rw [hnew]
      refine and_congr_right fun _ => ?_
      rcases hctl with hc | hc
      · -- in the gap the history still ends with the new state
        refine iff_of_false ?_ (fun hno => hno out hc)
        rw [h.gap out hc]
        cases out <;> simp [Run.finalEvent]
      · refine iff_of_true (h.ended out hc) (fun out' hc' => ?_)
        rw [hc] at hc'
        cases hc'

theorem mem_modify_of_mem {α : Type} {f : α → α} {x : α} : ∀ {l : List α} (i : Nat), x ∈ l →
    x ∈ l.modify i f ∨ f x ∈ l.modify i f := by
  intro l
  induction l with
  | nil => intro i h; exact absurd h List.not_mem_nil
  | cons y l ih =>
      intro i h
      cases i with
      | zero =>
          rw [List.modify_zero_cons]
          rcases List.mem_cons.mp h with rfl | h
          · exact .inr (List.mem_cons_self ..)
          · exact .inl (List.mem_cons_of_mem _ h)
      | succ i =>
          rw [List.modify_succ_cons]
          rcases List.mem_cons.mp h with rfl | h
          · exact .inl (List.mem_cons_self ..)
          · exact (ih i h).imp (List.mem_cons_of_mem y) (List.mem_cons_of_mem y)

/-- What one subscriber does to its channel ends no stream differently. -/
theorem endsFinal_modify {r : Run} {i : Nat} {f : Sub → Sub}
    (hf : ∀ s ∈ r.subs, ((f s).closedBy = some .runSide ↔ s.closedBy = some .runSide) ∧
      (s.closedBy = some .runSide → (f s).chan.sent = s.chan.sent)) :
    Run.EndsFinal { r with subs := r.subs.modify i f } ↔ r.EndsFinal := by
  constructor
  · intro hall s hs hby
    rcases mem_modify_of_mem i hs with hmem | hmem
    · exact hall s hmem hby
    · obtain ⟨e, he, hlast⟩ := hall (f s) hmem ((hf s hs).1.mpr hby)
      exact ⟨e, he, by rw [← (hf s hs).2 hby]; exact hlast⟩
  · intro hall s hs hby
    rcases mem_modify hs with hs | ⟨s₀, hs₀, rfl⟩
    · exact hall s hs hby
    · have hby₀ := (hf s₀ hs₀).1.mp hby
      obtain ⟨e, he, hlast⟩ := hall s₀ hs₀ hby₀
      exact ⟨e, he, by rw [(hf s₀ hs₀).2 hby₀]; exact hlast⟩

/-- **The step lemma.** A step keeps every stream ending with the final event exactly when it is not a
    `Subscribe` in the gap. -/
theorem endsFinal_step {rn : Runner X} {t t' : Task X} {a : RunAction} (h : Streams t)
    (hs : TaskStep rn t a t') : t'.run.EndsFinal ↔ t.run.EndsFinal ∧ OutsideGap t a := by
  have h' := h.step hs
  -- a step of the goroutine that leaves the run short of its final state
  have before : a ≠ .subscribe → t'.ctl.state.terminal = false → t.ctl.state.terminal = false →
      (t'.run.EndsFinal ↔ t.run.EndsFinal ∧ OutsideGap t a) := fun ha ht' ht =>
    iff_of_true (endsFinal_of_early (h'.early ht'))
      ⟨endsFinal_of_early (h.early ht), fun he => absurd he ha⟩
  cases hs with
  | count hc => exact before nofun rfl (by rw [hc]; rfl)
  | launch hc => exact before nofun rfl (by rw [hc]; rfl)
  | call hc hp => exact before nofun rfl (by rw [hc]; rfl)
  | refuse hc hp hr => exact before nofun rfl (by rw [hc]; rfl)
  | reply hc hr => exact before nofun rfl (by rw [hc]; rfl)
  | emit hc => exact before nofun rfl (by rw [hc]; rfl)
  | runFailed hc => exact before nofun rfl (by rw [hc]; rfl)
  | runReturned hc => exact before nofun rfl (by rw [hc]; rfl)
  | putRefused hc hp => exact before nofun rfl (by rw [hc]; rfl)
  | inserted hc hp => exact before nofun rfl (by rw [hc]; rfl)
  | returned hc => exact before nofun rfl (by rw [hc]; rfl)
  | notPersisted hc => exact before nofun rfl (by rw [hc]; rfl)
  | setResult hc => exact before nofun rfl (by rw [hc]; rfl)
  | @setState out hc =>
      -- the run is over from here on, but no channel has been closed yet
      have hearly := h.early (by rw [hc]; rfl)
      have hcan : t.run.state.canTransition (Run.finalState out) = true := by
        rw [h.consistent.state, hc]; exact Run.canTransition_final out
      refine iff_of_true ?_ ⟨endsFinal_of_early hearly, nofun⟩
      show (t.run.transition (Run.finalState out)).1.EndsFinal
      rw [Run.transition_of_can hcan]
      exact endsFinal_of_early (early_publish hearly)
  | publish hc =>
      exact (endsFinal_publishFinal h hc).trans ⟨fun hf => ⟨hf, nofun⟩, And.left⟩
  | subscribe =>
      exact (endsFinal_subscribe h).trans (and_congr_right fun _ => ⟨fun hno _ => hno, fun hno => hno rfl⟩)
  | @unsub i =>
      refine Iff.trans (endsFinal_modify fun s hs => ?_) ⟨fun hf => ⟨hf, nofun⟩, And.left⟩
      unfold Run.dismiss
      by_cases hr : s.registered = true
      · rw [if_pos hr, (h.lossless.subs s hs).live hr]
        exact ⟨by simp, fun hby => absurd hby (by simp)⟩
      · rw [if_neg hr]
        exact ⟨Iff.rfl, fun _ => rfl⟩
  | @recv i =>
      exact Iff.trans (endsFinal_modify fun s _ => ⟨Iff.rfl, fun _ => Chan.sent_recv s.chan⟩)
        ⟨fun hf => ⟨hf, nofun⟩, And.left⟩

/-- **When every stream ends properly.** At the end of any run of the goroutine and its subscribers, every
    channel the run side has closed ends with the run's terminal event exactly when no `Subscribe` came
    between the transition to the final state and the publication of the final event. -/
theorem ends_final_iff (rn : Runner X) (id : String) (mode : Mode) (flow : String)
    {as : List RunAction} {t : Task X}
    (h : exec (Task.step rn) (Task.start id mode flow) as = some t) :
    t.run.EndsFinal ↔ Meets (Task.step rn) OutsideGap (Task.start id mode flow) as :=
  good_iff_meets (I := Streams) (G := fun t => t.run.EndsFinal)
    (fun _ _ _ hi hs => hi.step (task_step hs)) (fun _ _ _ hi hs => endsFinal_step hi (task_step hs)) as
    (streams_start id mode flow) (endsFinal_of_early fun _ hs => absurd hs List.not_mem_nil) h

/-- A subscriber that comes when the run is registered: its channel is closed at the end of the run, and ends with
    `done`. -/
theorem ends_final_iff_sample : ∃ t, exec (Task.step sampleNode) (Task.start "run-1" modeAnonymous "")
    (.subscribe :: sampleActions ++ [.finish]) = some t ∧
      t.run.subs.map (·.closedBy) = [some .runSide] ∧ t.run.EndsFinal := by
  have hclosed : (exec (Task.step sampleNode) (Task.start "run-1" modeAnonymous "")
      (.subscribe :: sampleActions ++ [.finish])).map (fun t => t.run.subs.map (·.closedBy))
        = some [some .runSide] := by decide +kernel
  obtain ⟨t, ht, hby⟩ := Option.map_eq_some_iff.mp hclosed
  -- the only `Subscribe` is taken at the start
  have hlater : ∀ a ∈ sampleActions ++ [.finish], ∀ s : Task sampleX, OutsideGap s a := by
    have hne : ∀ a ∈ sampleActions ++ [.finish], a ≠ .subscribe := by decide +kernel
    exact fun a ha _ hsub => absurd hsub (hne a ha)
  refine ⟨t, ht, hby, (ends_final_iff sampleNode "run-1" modeAnonymous "" ht).mpr ⟨fun _ out => nofun, ?_⟩⟩
  exact fun s' _ => meets_of_forall hlater s'

/-- A completed run, with a `Subscribe` in the gap: the channel is closed, and the last event it carries
    is the state. -/
theorem not_endsFinal_of_gap : ∃ t, exec (Task.step sampleNode) (Task.start "run-1" modeAnonymous "")
    (sampleActions ++ [.subscribe, .finish]) = some t ∧ ¬ t.run.EndsFinal := by
  have hrun : (exec (Task.step sampleNode) (Task.start "run-1" modeAnonymous "")
      (sampleActions ++ [.subscribe, .finish])).map (fun t => t.run.subs.map fun s =>
        (s.closedBy, s.chan.sent.getLast?)) = some [(some .runSide, some (.state .complete))] := by
    decide +kernel
  obtain ⟨t, ht, hsubs⟩ := Option.map_eq_some_iff.mp hrun
  refine ⟨t, ht, fun hends => ?_⟩
  obtain ⟨s, hs, hpair⟩ : ∃ s ∈ t.run.subs,
      (s.closedBy, s.chan.sent.getLast?) = (some .runSide, some (.state .complete)) :=
    List.mem_map.mp (by rw [hsubs]; exact List.mem_singleton_self _)
  rw [Prod.mk.injEq] at hpair
  obtain ⟨e, he, hlast⟩ := hends s hs hpair.1
  rw [hpair.2, Option.some.injEq] at hlast
  subst hlast
  unfold Run.terminalEvent at he
  split at he <;> simp at he

end Api
end InfrixPlayground
