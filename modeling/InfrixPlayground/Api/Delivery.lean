import Mathlib.Data.List.Infix
import InfrixPlayground.Api.RunHistory
import InfrixPlayground.Api.RunEvents

/-!
# `Api.Delivery` — one channel over time

What the steps of a run do to the channel of one subscriber that is not theirs: nothing that was taken or
sent is taken back, and a channel that carries the whole history goes on to carry it, through the last
event and past it (`Task.Feeds`). Only a `Subscribe` in the gap hands out a channel that does not.
-/

namespace InfrixPlayground
namespace Api

open Worker

variable {X : Externals}

/-! ## What a step does to the channels -/

/-- What a step does to the channels and the history of its run. -/
inductive ChannelStep (t : Task X) : RunAction → Task X → Prop where
  | quiet {a : RunAction} {t' : Task X} (hsubs : t'.run.subs = t.run.subs)
      (hhistory : t'.run.history = t.run.history) (hended : t'.ctl.isEnded = t.ctl.isEnded) :
      ChannelStep t a t'
  | publish {a : RunAction} {t' : Task X} (e : Event) (hsubs : t'.run.subs = t.run.subs.map (Run.offer e))
      (hhistory : t'.run.history = t.run.history ++ [e]) (hended : t.ctl.isEnded = false) :
      ChannelStep t a t'
  | last {a : RunAction} {t' : Task X} (e : Event)
      (hsubs : t'.run.subs = (t.run.subs.map (Run.offer e)).map (Run.dismiss .runSide))
      (hhistory : t'.run.history = t.run.history ++ [e]) (hended : t.ctl.isEnded = false)
      (hended' : t'.ctl.isEnded = true) : ChannelStep t a t'
  | subscribe : ChannelStep t .subscribe { t with run := t.run.subscribe }
  | unsub (i : Nat) : ChannelStep t (.unsub i) { t with run := t.run.unsub i }
  | recv (i : Nat) : ChannelStep t (.recv i) { t with run := t.run.recv i }

theorem TaskStep.channels {rn : Runner X} {t t' : Task X} {a : RunAction} (hc : Consistent t)
    (hs : TaskStep rn t a t') : ChannelStep t a t' := by
  have hstate := hc.state
  cases hs with
  | count hc => exact .quiet rfl rfl (by rw [hc]; rfl)
  | launch hc =>
      rw [Run.transition_of_can (by rw [hstate, hc]; rfl)]
      exact .publish (.state .running) rfl rfl (by rw [hc]; rfl)
  | call hc hp => exact .quiet rfl rfl (by rw [hc]; rfl)
  | refuse hc hp hr => exact .quiet rfl rfl (by rw [hc]; rfl)
  | reply hc hr => exact .quiet rfl rfl (by rw [hc]; rfl)
  | @emit s todo res hc => exact .publish (.step s) rfl rfl (by rw [hc]; rfl)
  | runFailed hc => exact .quiet rfl rfl (by rw [hc]; rfl)
  | runReturned hc => exact .quiet rfl rfl (by rw [hc]; rfl)
  | putRefused hc hp => exact .quiet rfl rfl (by rw [hc]; rfl)
  | inserted hc hp => exact .quiet rfl rfl (by rw [hc]; rfl)
  | returned hc => exact .quiet rfl rfl (by rw [hc]; rfl)
  | notPersisted hc => exact .quiet rfl rfl (by rw [hc]; rfl)
  | @setResult out hc => cases out <;> exact .quiet rfl rfl (by rw [hc]; rfl)
  | @setState out hc =>
      rw [Run.transition_of_can (by rw [hstate, hc]; exact Run.canTransition_final out)]
      exact .publish (.state (Run.finalState out)) rfl rfl (by rw [hc]; rfl)
  | @publish out hc => exact .last (Run.finalEvent out) rfl rfl (by rw [hc]; rfl) rfl
  | subscribe => exact .subscribe
  | unsub => exact .unsub _
  | recv => exact .recv _

/-- The history only grows. -/
theorem ChannelStep.history_prefix {t t' : Task X} {a : RunAction} (h : ChannelStep t a t') :
    t.run.history <+: t'.run.history := by
  cases h with
  | quiet _ hhistory => rw [hhistory]
  | publish e _ hhistory => rw [hhistory]; exact List.prefix_append ..
  | last e _ hhistory => rw [hhistory]; exact List.prefix_append ..
  | subscribe =>
      obtain ⟨_, heq⟩ := t.run.subscribe_eq
      show t.run.history <+: t.run.subscribe.history
      rw [heq]
  | unsub => exact List.prefix_rfl
  | recv => exact List.prefix_rfl

/-! ## A channel goes on -/

/-- From one moment of a channel to a later one, at which its own subscriber has done nothing. -/
structure Sub.Continues (s s' : Sub) : Prop where
  taken : s'.chan.taken = s.chan.taken
  sent : s.chan.sent <+: s'.chan.sent

theorem Sub.Continues.refl (s : Sub) : s.Continues s := ⟨rfl, List.prefix_rfl⟩

theorem taken_trySend (c : Chan Event) (e : Event) : (c.trySend e).taken = c.taken := by
  unfold Chan.trySend
  split
  · rfl
  · split <;> rfl

theorem sent_trySend (c : Chan Event) (e : Event) : c.sent <+: (c.trySend e).sent := by
  unfold Chan.trySend
  split
  · exact List.prefix_rfl
  · split
    · rw [Chan.sent_push]; exact List.prefix_append ..
    · exact List.prefix_rfl

theorem Sub.continues_offer (e : Event) (s : Sub) : s.Continues (Run.offer e s) := by
  unfold Run.offer
  split
  · exact ⟨taken_trySend s.chan e, sent_trySend s.chan e⟩
  · exact .refl s

theorem Sub.continues_dismiss (who : Closer) (s : Sub) : s.Continues (Run.dismiss who s) := by
  unfold Run.dismiss
  split
  · refine ⟨?_, by rw [Chan.sent_close]⟩
    unfold Chan.close
    split <;> rfl
  · exact .refl s

theorem Sub.Continues.trans {s s' s'' : Sub} (h : s.Continues s') (h' : s'.Continues s'') : s.Continues s'' :=
  ⟨h'.taken.trans h.taken, h.sent.trans h'.sent⟩

/-- What is looked up at an index that another one's change leaves alone. -/
theorem getElem?_modify_other {l : List Sub} {i j : Nat} (f : Sub → Sub) {s : Sub} (h : l[i]? = some s)
    (hne : j ≠ i) : (l.modify j f)[i]? = some s :=
  (List.getElem?_modify_ne f l hne).trans h

/-- **Nobody else takes from a channel**, and what was sent on it stays sent. -/
theorem ChannelStep.continues {t t' : Task X} {a : RunAction} (h : ChannelStep t a t') {i : Nat} {s : Sub}
    (hs : t.run.subs[i]? = some s) (hown : a ≠ .recv i) :
    ∃ s', t'.run.subs[i]? = some s' ∧ s.Continues s' := by
  cases h with
  | quiet hsubs => exact ⟨s, by rw [hsubs, hs], .refl s⟩
  | publish e hsubs =>
      exact ⟨Run.offer e s, by rw [hsubs, List.getElem?_map, hs]; rfl, s.continues_offer e⟩
  | last e hsubs =>
      exact ⟨Run.dismiss .runSide (Run.offer e s),
        by rw [hsubs, List.getElem?_map, List.getElem?_map, hs]; rfl,
        (s.continues_offer e).trans ((Run.offer e s).continues_dismiss .runSide)⟩
  | subscribe =>
      obtain ⟨new, heq⟩ := t.run.subscribe_eq
      refine ⟨s, ?_, .refl s⟩
      show t.run.subscribe.subs[i]? = some s
      rw [heq]
      exact List.getElem?_append_left (List.getElem?_eq_some_iff.mp hs).1 ▸ hs
  | unsub j =>
      by_cases hij : j = i
      · subst hij
        exact ⟨Run.dismiss .unsub s, by simp [Run.unsub, hs], s.continues_dismiss .unsub⟩
      · exact ⟨s, getElem?_modify_other _ hs hij, .refl s⟩
  | recv j =>
      have hij : j ≠ i := fun h => hown (by rw [h])
      exact ⟨s, getElem?_modify_other _ hs hij, .refl s⟩

/-- What the subscriber itself takes. -/
theorem getElem?_recv {r : Run} {i : Nat} {s : Sub} (hs : r.subs[i]? = some s) :
    (r.recv i).subs[i]? = some { s with chan := s.chan.recv } := by
  simp [Run.recv, hs]

/-! ## Nothing but the history -/

/-- Every channel carries a beginning of the history. -/
def Run.Carries (r : Run) : Prop := ∀ s ∈ r.subs, s.chan.sent <+: r.history

/-- **The invariant of delivery.** -/
structure Delivers (t : Task X) : Prop where
  consistent : Consistent t
  lossless : Lossless t
  carries : t.run.Carries

theorem delivers_ofRun (id : String) (mode : Mode) (flow : String) :
    Delivers (Task.ofRun (.new id mode flow) : Task X) :=
  ⟨consistent_ofRun id mode flow, ⟨Nat.le_refl 12, fun _ hs => absurd hs List.not_mem_nil⟩,
    fun _ hs => absurd hs List.not_mem_nil⟩

/-- An event on a channel, registered or not. -/
theorem Sub.Good.sent_offer {history : List Event} {s : Sub} (h : s.Good history)
    (hroom : history.length < 16) (hs : s.chan.sent <+: history) (e : Event) :
    (Run.offer e s).chan.sent <+: history ++ [e] := by
  by_cases hr : s.registered = true
  · have hreg : (Run.offer e s).registered = true := by unfold Run.offer; rw [if_pos hr]; exact hr
    rw [(h.offer hroom e).carries hreg]
  · unfold Run.offer
    rw [if_neg hr]
    exact hs.trans (List.prefix_append ..)

theorem sent_dismiss (who : Closer) (s : Sub) : (Run.dismiss who s).chan.sent = s.chan.sent := by
  unfold Run.dismiss
  split
  · exact Chan.sent_close s.chan
  · rfl

theorem Delivers.step {rn : Runner X} {t t' : Task X} {a : RunAction} (h : Delivers t)
    (hs : TaskStep rn t a t') : Delivers t' := by
  refine ⟨h.consistent.step hs, h.lossless.step h.consistent hs, ?_⟩
  have hroom : t.run.history.length < 16 := by have := h.lossless.budget; omega
  have hoffer : ∀ e, ∀ s ∈ t.run.subs.map (Run.offer e), s.chan.sent <+: t.run.history ++ [e] := by
    intro e s hs
    obtain ⟨s₀, hs₀, rfl⟩ := List.mem_map.mp hs
    exact (h.lossless.subs s₀ hs₀).sent_offer hroom (h.carries s₀ hs₀) e
  cases hs.channels h.consistent with
  | quiet hsubs hhistory => intro s hs; rw [hhistory]; exact h.carries s (hsubs ▸ hs)
  | publish e hsubs hhistory => intro s hs; rw [hhistory]; exact hoffer e s (hsubs ▸ hs)
  | last e hsubs hhistory =>
      intro s hs
      rw [hsubs] at hs
      obtain ⟨s₀, hs₀, rfl⟩ := List.mem_map.mp hs
      rw [hhistory, sent_dismiss]
      exact hoffer e s₀ hs₀
  | subscribe =>
      obtain ⟨_, heq⟩ := t.run.subscribe_eq
      have hhist : t.run.subscribe.history = t.run.history := by rw [heq]
      intro s hs
      show s.chan.sent <+: t.run.subscribe.history
      rw [hhist]
      rcases mem_subscribe hs with hs | ⟨hsent, _⟩
      · exact h.carries s hs
      · rw [hsent]
  | unsub i =>
      intro s hs
      rcases mem_modify hs with hs | ⟨s₀, hs₀, rfl⟩
      · exact h.carries s hs
      · rw [sent_dismiss]; exact h.carries s₀ hs₀
  | recv i =>
      intro s hs
      rcases mem_modify hs with hs | ⟨s₀, hs₀, rfl⟩
      · exact h.carries s hs
      · show s₀.chan.recv.sent <+: t.run.history
        rw [Chan.sent_recv]
        exact h.carries s₀ hs₀

/-! ## A channel that misses nothing -/

/-- A channel carries the whole history, and will: it is registered, or there is nothing to come. -/
structure Task.Feeds (t : Task X) (s : Sub) : Prop where
  sent : s.chan.sent = t.run.history
  goesOn : s.registered = true ∨ t.ctl.isEnded = true

/-- **A channel that misses nothing goes on to miss nothing**, unless its own subscriber gives it up. -/
theorem Task.Feeds.step {rn : Runner X} {t t' : Task X} {a : RunAction} {i : Nat} {s : Sub} (hd : Delivers t)
    (h : t.Feeds s) (hs : t.run.subs[i]? = some s) (hstep : TaskStep rn t a t') (hunsub : a ≠ .unsub i)
    (hrecv : a ≠ .recv i) : ∃ s', t'.run.subs[i]? = some s' ∧ t'.Feeds s' ∧ s.Continues s' := by
  have hroom : t.run.history.length < 16 := by have := hd.lossless.budget; omega
  have hgood := hd.lossless.subs s (List.mem_of_getElem? hs)
  -- while events are still to come, the channel is registered
  have hreg : t.ctl.isEnded = false → s.registered = true := fun hended =>
    h.goesOn.resolve_right (by rw [hended]; decide)
  have hoffer : t.ctl.isEnded = false → ∀ e, (Run.offer e s).registered = true ∧
      (Run.offer e s).chan.sent = t.run.history ++ [e] := fun hended e => by
    have hr : (Run.offer e s).registered = true := by
      unfold Run.offer; rw [if_pos (hreg hended)]; exact hreg hended
    exact ⟨hr, (hgood.offer hroom e).carries hr⟩
  have hchannels := hstep.channels hd.consistent
  obtain ⟨s', hs', hcont⟩ := hchannels.continues hs hrecv
  refine ⟨s', hs', ?_, hcont⟩
  cases hchannels with
  | quiet hsubs hhistory hended =>
      rw [hsubs, hs] at hs'
      cases hs'
      exact ⟨h.sent.trans hhistory.symm, by rw [hended]; exact h.goesOn⟩
  | publish e hsubs hhistory hended =>
      rw [hsubs, List.getElem?_map, hs] at hs'
      cases hs'
      exact ⟨(hoffer hended e).2.trans hhistory.symm, .inl (hoffer hended e).1⟩
  | last e hsubs hhistory hended hended' =>
      rw [hsubs, List.getElem?_map, List.getElem?_map, hs] at hs'
      cases hs'
      exact ⟨by rw [sent_dismiss, (hoffer hended e).2, hhistory], .inr hended'⟩
  | subscribe =>
      obtain ⟨new, heq⟩ := t.run.subscribe_eq
      have hhist : t.run.subscribe.history = t.run.history := by rw [heq]
      have hold : t.run.subscribe.subs[i]? = some s := by
        rw [heq]; exact List.getElem?_append_left (List.getElem?_eq_some_iff.mp hs).1 ▸ hs
      cases Option.some.inj (hs'.symm.trans hold)
      exact ⟨h.sent.trans hhist.symm, h.goesOn⟩
  | unsub j =>
      have hij : j ≠ i := fun h => hunsub (by rw [h])
      cases Option.some.inj (hs'.symm.trans (getElem?_modify_other _ hs hij))
      exact ⟨h.sent, h.goesOn⟩
  | recv j =>
      have hij : j ≠ i := fun h => hrecv (by rw [h])
      cases Option.some.inj (hs'.symm.trans (getElem?_modify_other _ hs hij))
      exact ⟨h.sent, h.goesOn⟩

/-- The channel a `Subscribe` hands out, where it is found. -/
theorem getElem?_subscribe (r : Run) : ∃ s, r.subscribe.subs[r.subs.length]? = some s ∧
    s.chan.taken = [] ∧ s.chan.sent = r.history ∧ s.registered = !r.state.terminal := by
  obtain ⟨hsent, hopen, _⟩ := prefill r.history
  have htaken : (r.history.foldl Chan.send (Chan.make (r.history.length + 16))).taken = [] := by
    have hsend : ∀ (l : List Event) (c : Chan Event), (l.foldl Chan.send c).taken = c.taken := by
      intro l
      induction l with
      | nil => intro c; rfl
      | cons e l ih =>
          intro c
          rw [List.foldl_cons, ih]
          unfold Chan.send
          split
          · rfl
          · split <;> rfl
    rw [hsend]
    rfl
  unfold Run.subscribe
  dsimp only
  split
  · rename_i hterm
    refine ⟨_, List.getElem?_concat_length, ?_, ?_, by rw [hterm]; rfl⟩
    · rw [Chan.close_open hopen]; exact htaken
    · rw [Chan.close_open hopen]; exact hsent
  · rename_i hterm
    rw [Bool.not_eq_true] at hterm
    exact ⟨_, List.getElem?_concat_length, htaken, hsent, by rw [hterm]; rfl⟩

/-- **A `Subscribe` outside the gap** hands out a channel that misses nothing. -/
theorem feeds_subscribe {t : Task X} (hc : Consistent t) (hgap : ∀ out, t.ctl ≠ .finishing out .publish)
    {s : Sub} (hsent : s.chan.sent = t.run.history) (hreg : s.registered = !t.run.state.terminal) :
    t.Feeds s := by
  refine ⟨hsent, ?_⟩
  cases hterm : t.run.state.terminal with
  | false => exact .inl (by rw [hreg, hterm]; rfl)
  | true =>
      obtain ⟨out, hctl | hctl⟩ := ctl_of_terminal (by rw [← hc.state]; exact hterm)
      · exact absurd hctl (hgap out)
      · exact .inr (Ctl.isEnded_iff.mpr ⟨out, hctl⟩)

end Api
end InfrixPlayground
