import Mathlib.Data.List.Infix
import Mathlib.Data.List.ReduceOption
import InfrixPlayground.Lib.AsyncQueue
import InfrixPlayground.Web.RunTheater

/-!
# `Web.Pacing` — the events of a run, paced

The frames of the stream and its breaks arrive whenever they do; the consumer takes them one by one from a
queue, stops over each stage twice for the eye, and waits for the seal before it leaves the page. However
arrivals and pauses interleave, what it does is what `consume` does with the frames in arrival order:
`paced_faithful`.
-/

namespace InfrixPlayground
namespace Web

open Machine

/-! ## The machine -/

/-- Where the consumer stands. -/
inductive Consumer where
  /-- In `await ch.next()`, its waiter stored. -/
  | waiting
  /-- In `await ch.next()`, which has been resolved; a falsy message is `none`. -/
  | handed (x : Option Frame)
  /-- In the pause between the two halves of a stage. -/
  | running (complete : List Act)
  /-- In the pause after a stage. -/
  | complete
  /-- In `await spine.seal()`. -/
  | sealing (rest : List Act)
  | returned

/-- The theater of a run: its queue, its consumer, what the page has been told, and (as history) what the
    callbacks of the stream have pushed. -/
structure Stage where
  ch : AsyncQueue (Option Frame)
  consumer : Consumer
  terminated : Bool
  acts : List Act
  arrived : List (Option Frame)

/-- What happens next: a message (`none` if it is no JSON), an error of the connection, or the consumer's
    promise settles. -/
inductive Happening where
  | message (data : Option (Option Frame))
  | error
  | resume

namespace Stage

/-- `ch.push(x)`. -/
def push (s : Stage) (x : Option Frame) : Stage :=
  match s.ch.push x with
  | (ch, some x') => { s with ch, arrived := s.arrived ++ [x], consumer := .handed x' }
  | (ch, none) => { s with ch, arrived := s.arrived ++ [x] }

/-- `await ch.next()`. -/
def awaitNext (s : Stage) : Stage :=
  match s.ch.next with
  | (ch, some x) => { s with ch, consumer := .handed x }
  | (ch, none) => { s with ch, consumer := .waiting }

/-- `startRun` once the stream is open and the consumer has asked for its first event. -/
def start : Stage :=
  { ch := .empty, consumer := .waiting, terminated := false, acts := [], arrived := [] : Stage }.awaitNext

/-- What of a decisive frame's acts comes before the pause for the seal, and what after. -/
def splitAtSeal : List Act → List Act × List Act
  | [] => ([], [])
  | .seal :: rest => ([.seal], rest)
  | a :: acts => (a :: (splitAtSeal acts).1, (splitAtSeal acts).2)

/-- One round of the loop, from the event it was handed to the next `await`. -/
def round (th : Theater) (s : Stage) (x : Option Frame) : Stage :=
  if s.terminated then { s with consumer := .returned }
  else
    match x with
    | none => s.awaitNext
    | some e =>
      match th.react e with
      | .ignore => s.awaitNext
      | .stage running complete => { s with acts := s.acts ++ running, consumer := .running complete }
      | .stop acts =>
        { s with
          terminated := true
          acts := s.acts ++ (splitAtSeal acts).1
          consumer := if (splitAtSeal acts).2 = [] then .returned else .sealing (splitAtSeal acts).2 }

/-- The consumer goes on; it cannot while it waits for an event, nor once it has returned. -/
def resume (th : Theater) (s : Stage) : Option Stage :=
  match s.consumer with
  | .waiting => none
  | .handed x => some (s.round th x)
  | .running complete =>
    if s.terminated then some { s with consumer := .returned }
    else some { s with acts := s.acts ++ complete, consumer := .complete }
  | .complete => some s.awaitNext
  | .sealing rest => some { s with acts := s.acts ++ rest, consumer := .returned }
  | .returned => none

/-- One step. -/
def step (th : Theater) (s : Stage) : Happening → Option Stage
  | .message none => some s
  | .message (some x) => some (s.push x)
  | .error => some (if s.terminated then s else s.push (some sseError))
  | .resume => s.resume th

end Stage

/-! ## Decisive frames -/

/-- A failed step, a `done` with a receipt id, an `error`, or the connection-lost marker. -/
def Frame.Decisive (e : Frame) : Prop :=
  (e.type = "step" ∧ ∃ st, e.step = some st ∧ st.status = .failed) ∨
    (e.type = "done" ∧ ∃ id, e.receiptId = some id ∧ id ≠ "") ∨ e.type = "error" ∨ e.type = "__sse_error"

/-- What the page is told only when a run ends. -/
def Act.Terminal : Act → Prop
  | .spine _ state _ => state = "failed"
  | .card _ _ _ => False
  | _ => True

namespace Theater

variable {th : Theater}

/-- The frames the consumer stops at. -/
theorem react_stop_iff (th : Theater) {e : Frame} : (∃ acts, th.react e = .stop acts) ↔ e.Decisive := by
  obtain ⟨type, state, step, receiptId, error⟩ := e
  unfold react Frame.Decisive
  constructor
  · rintro ⟨acts, h⟩
    split at h
    · rename_i st htype hstep
      split at h
      · rename_i hf; exact .inl ⟨htype, st, hstep, hf⟩
      · exact absurd h (by simp)
    · rename_i id htype hid
      split at h
      · rename_i hne; exact .inr (.inl ⟨htype, id, hid, hne⟩)
      · exact absurd h (by simp)
    · rename_i htype; exact .inr (.inr (.inl htype))
    · rename_i htype; exact .inr (.inr (.inr htype))
    · exact absurd h (by simp)
  · rintro (⟨rfl, st, rfl, hf⟩ | ⟨rfl, id, rfl, hne⟩ | rfl | rfl)
    · exact ⟨_, if_pos hf⟩
    · exact ⟨_, if_pos hne⟩
    · exact ⟨_, rfl⟩
    · exact ⟨_, rfl⟩

/-- What the consumer does for a stage ends nothing. -/
theorem not_terminal_of_stage {e : Frame} {running complete : List Act}
    (h : th.react e = .stage running complete) : ∀ a ∈ running ++ complete, ¬ a.Terminal := by
  unfold react at h
  split at h
  · split at h
    · exact absurd h (by simp)
    · cases h
      intro a ha
      simp only [List.mem_append, List.mem_cons, List.not_mem_nil, or_false] at ha
      rcases ha with (rfl | rfl) | (rfl | rfl)
      · exact fun h : "running" = "failed" => absurd h (by decide)
      · exact id
      · exact fun h : "complete" = "failed" => absurd h (by decide)
      · exact id
  · split at h <;> exact absurd h (by simp)
  · exact absurd h (by simp)
  · exact absurd h (by simp)
  · exact absurd h (by simp)

/-! ## Consuming a list in two parts -/

/-- What has ended reads no further. -/
theorem consume_append_ended : ∀ {es : List Frame}, (th.consume es).2 = true → ∀ fs,
    th.consume (es ++ fs) = th.consume es := by
  intro es
  induction es with
  | nil => intro h; exact absurd h Bool.false_ne_true
  | cons e es ih =>
      intro h fs
      rw [List.cons_append]
      cases hr : th.react e with
      | ignore => simp only [consume, hr] at h ⊢; exact ih h fs
      | stage running complete => simp only [consume, hr] at h ⊢; rw [ih h fs]
      | stop acts => simp only [consume, hr]

/-- What has not goes on where it stood. -/
theorem consume_append_live : ∀ {es : List Frame}, (th.consume es).2 = false → ∀ fs,
    th.consume (es ++ fs) = ((th.consume es).1 ++ (th.consume fs).1, (th.consume fs).2) := by
  intro es
  induction es with
  | nil => intro _ fs; rfl
  | cons e es ih =>
      intro h fs
      rw [List.cons_append]
      cases hr : th.react e with
      | ignore => simp only [consume, hr] at h ⊢; exact ih h fs
      | stage running complete =>
          simp only [consume, hr] at h ⊢
          rw [ih h fs]
          simp only [List.append_assoc]
      | stop acts => simp [consume, hr] at h

/-- One more frame, by what the consumer makes of it. -/
theorem consume_concat {es : List Frame} {acts : List Act} (h : th.consume es = (acts, false)) (e : Frame) :
    th.consume (es ++ [e]) = match th.react e with
      | .ignore => (acts, false)
      | .stage running complete => (acts ++ (running ++ complete), false)
      | .stop stop => (acts ++ stop, true) := by
  rw [consume_append_live (by rw [h]), h]
  cases hr : th.react e <;> simp [consume, hr]

/-- **The loop ends exactly at a decisive frame.** -/
theorem consume_live_iff : ∀ {es : List Frame}, (th.consume es).2 = false ↔ ∀ e ∈ es, ¬ e.Decisive := by
  intro es
  induction es with
  | nil => exact ⟨fun _ e he => absurd he List.not_mem_nil, fun _ => rfl⟩
  | cons e es ih =>
      rw [List.forall_mem_cons, ← react_stop_iff th]
      cases hr : th.react e with
      | ignore => simp [consume, hr, ih]
      | stage running complete => simp [consume, hr, ih]
      | stop acts => simp [consume, hr]

/-- Before a decisive frame nothing ends. -/
theorem not_terminal_of_live : ∀ {es : List Frame}, (th.consume es).2 = false →
    ∀ a ∈ (th.consume es).1, ¬ a.Terminal := by
  intro es
  induction es with
  | nil => intro _ a ha; exact absurd ha List.not_mem_nil
  | cons e es ih =>
      intro h a ha
      cases hr : th.react e with
      | ignore => simp only [consume, hr] at h ha; exact ih h a ha
      | stage running complete =>
          simp only [consume, hr, List.mem_append] at h ha
          rcases ha with ha | ha
          · exact not_terminal_of_stage hr a (List.mem_append.mpr ha)
          · exact ih h a ha
      | stop acts => simp [consume, hr] at h

end Theater

/-! ## What a step can do -/

variable {th : Theater}

namespace Stage

/-- What the consumer can do when its promise settles. -/
inductive Resumes (th : Theater) (s : Stage) : Stage → Prop where
  | quit (hc : (∃ x, s.consumer = .handed x) ∨ ∃ complete, s.consumer = .running complete)
      (ht : s.terminated = true) : Resumes th s { s with consumer := .returned }
  | skip {x : Option Frame} (hc : s.consumer = .handed x) (ht : s.terminated = false)
      (hx : ∀ e, x = some e → th.react e = .ignore) : Resumes th s s.awaitNext
  | stage {e : Frame} {running complete : List Act} (hc : s.consumer = .handed (some e))
      (ht : s.terminated = false) (hr : th.react e = .stage running complete) :
      Resumes th s { s with acts := s.acts ++ running, consumer := .running complete }
  | stop {e : Frame} {before after : List Act} (hc : s.consumer = .handed (some e))
      (ht : s.terminated = false) (hr : th.react e = .stop (before ++ after)) :
      Resumes th s { s with
        terminated := true
        acts := s.acts ++ before
        consumer := if after = [] then .returned else .sealing after }
  | completed {complete : List Act} (hc : s.consumer = .running complete) (ht : s.terminated = false) :
      Resumes th s { s with acts := s.acts ++ complete, consumer := .complete }
  | next (hc : s.consumer = .complete) : Resumes th s s.awaitNext
  | sealed {rest : List Act} (hc : s.consumer = .sealing rest) :
      Resumes th s { s with acts := s.acts ++ rest, consumer := .returned }

theorem splitAtSeal_append : ∀ acts : List Act, (splitAtSeal acts).1 ++ (splitAtSeal acts).2 = acts := by
  intro acts
  fun_induction splitAtSeal acts with
  | case1 => rfl
  | case2 rest => rfl
  | case3 a acts _ ih => rw [List.cons_append, ih]

theorem resume_cases {s s' : Stage} (h : s.resume th = some s') : Resumes th s s' := by
  cases hc : s.consumer with
  | waiting => simp [resume, hc] at h
  | handed x =>
      simp only [resume, hc, Option.some.injEq] at h
      subst h
      unfold round
      split
      · rename_i ht; exact .quit (.inl ⟨x, hc⟩) ht
      · rename_i ht
        rw [Bool.not_eq_true] at ht
        cases x with
        | none => exact .skip hc ht fun e he => absurd he (by simp)
        | some e =>
            cases hr : th.react e with
            | ignore => simp only [hr]; exact .skip hc ht fun e' he' => by cases he'; exact hr
            | stage running complete => simp only [hr]; exact .stage hc ht hr
            | stop acts => simp only [hr]; exact .stop hc ht (by rw [hr, splitAtSeal_append])
  | running complete =>
      simp only [resume, hc] at h
      split at h
      · rename_i ht; cases h; exact .quit (.inr ⟨complete, hc⟩) ht
      · rename_i ht; cases h; exact .completed hc (Bool.not_eq_true _ ▸ ht)
  | complete => simp only [resume, hc, Option.some.injEq] at h; subst h; exact .next hc
  | sealing rest => simp only [resume, hc, Option.some.injEq] at h; subst h; exact .sealed hc
  | returned => simp [resume, hc] at h

/-! ## The invariant -/

/-- What has been handed to the consumer, without the falsy messages. -/
def taken (s : Stage) : List Frame := s.ch.taken.reduceOption

/-- Where the consumer stands, against the loop over what it has been handed. -/
def Stands (th : Theater) (s : Stage) : Consumer → Prop
  | .waiting => s.ch.waiter = true ∧ s.terminated = false ∧ th.consume s.taken = (s.acts, false)
  | .handed x => s.ch.waiter = false ∧ s.terminated = false ∧
      ∃ before, s.ch.taken = before ++ [x] ∧ th.consume before.reduceOption = (s.acts, false)
  | .running complete => s.ch.waiter = false ∧ s.terminated = false ∧
      th.consume s.taken = (s.acts ++ complete, false)
  | .complete => s.ch.waiter = false ∧ s.terminated = false ∧ th.consume s.taken = (s.acts, false)
  | .sealing rest => s.ch.waiter = false ∧ s.terminated = true ∧ th.consume s.taken = (s.acts ++ rest, true)
  | .returned => s.ch.waiter = false ∧ s.terminated = true ∧ th.consume s.taken = (s.acts, true)

/-- That depends on the queue, the flag and the page only as far as `Stands` reads them. -/
theorem Stands.congr {s s' : Stage} {c : Consumer} (h : s.Stands th c) (hw : s'.ch.waiter = s.ch.waiter)
    (htaken : s'.ch.taken = s.ch.taken) (ht : s'.terminated = s.terminated) (hacts : s'.acts = s.acts) :
    s'.Stands th c := by
  cases c <;> simpa only [Stands, Stage.taken, hw, htaken, ht, hacts] using h

/-- **The invariant.** Nothing pushed is lost, doubled or out of order, the consumer has done what the
    loop does with what it has been handed, and it was handed nothing after a decisive frame. -/
structure Faithful (th : Theater) (s : Stage) : Prop where
  arrived : s.ch.pushed = s.arrived
  live : ∀ before x, s.ch.taken = before ++ [x] → (th.consume before.reduceOption).2 = false
  stands : s.Stands th s.consumer

/-- The consumer asks for its next event when it is through with all it was handed. -/
theorem Faithful.awaitNext {s : Stage} (hpushed : s.ch.pushed = s.arrived)
    (hlive : ∀ before x, s.ch.taken = before ++ [x] → (th.consume before.reduceOption).2 = false)
    (ht : s.terminated = false) (hdone : th.consume s.taken = (s.acts, false)) :
    s.awaitNext.Faithful th := by
  have hnext := s.ch.pushed_next
  unfold Stage.awaitNext
  rcases s.ch.next_cases with ⟨x, rest, _, hx, hw, htaken, _⟩ | ⟨_, hx, hw, htaken, _⟩
  · split
    · rename_i ch x' hch
      rw [hch] at hnext hx hw htaken
      cases hx
      refine ⟨hnext.trans hpushed, ?_, hw, ht, s.ch.taken, htaken, hdone⟩
      intro before y hy
      obtain ⟨rfl, _⟩ := List.append_inj' (htaken.symm.trans hy) rfl
      exact congrArg Prod.snd hdone
    · rename_i ch hch; rw [hch] at hx; exact absurd hx (by simp)
  · split
    · rename_i ch x' hch; rw [hch] at hx; exact absurd hx (by simp)
    · rename_i ch hch
      rw [hch] at hnext hw htaken
      refine ⟨hnext.trans hpushed, fun before y hy => hlive before y (htaken ▸ hy), hw, ht, ?_⟩
      show th.consume (ch.taken.reduceOption) = _
      rw [show ch.taken = s.ch.taken from htaken]; exact hdone

theorem Faithful.start : Stage.start.Faithful th :=
  Faithful.awaitNext rfl (fun before x h => absurd h (by simp [AsyncQueue.empty])) rfl rfl

/-- **An arrival** goes behind what is there, or straight to the waiting consumer. -/
theorem Faithful.push {s : Stage} (h : s.Faithful th) (x : Option Frame) : (s.push x).Faithful th := by
  have harrived : (s.ch.push x).1.pushed = s.arrived ++ [x] := by rw [s.ch.pushed_push, h.arrived]
  have hstands := h.stands
  unfold Stage.push
  cases hw : s.ch.waiter with
  | true =>
      obtain ⟨hx, hw', htaken, _⟩ := AsyncQueue.push_waiting hw x
      obtain ⟨hc, ht, hdone⟩ : s.consumer = .waiting ∧ s.terminated = false ∧
          th.consume s.taken = (s.acts, false) := by
        cases hc : s.consumer <;> rw [hc] at hstands <;> simp_all [Stands]
      split
      · rename_i ch x' hch
        rw [hch] at hx hw' htaken harrived
        cases hx
        refine ⟨harrived, ?_, hw', ht, s.ch.taken, htaken, hdone⟩
        intro before y hy
        obtain ⟨rfl, _⟩ := List.append_inj' (htaken.symm.trans hy) rfl
        exact congrArg Prod.snd hdone
      · rename_i ch hch; rw [hch] at hx; exact absurd hx (by simp)
  | false =>
      obtain ⟨hx, hw', htaken, _⟩ := AsyncQueue.push_busy hw x
      split
      · rename_i ch x' hch; rw [hch] at hx; exact absurd hx (by simp)
      · rename_i ch hch
        rw [hch] at hw' htaken harrived
        have htaken : ch.taken = s.ch.taken := htaken
        exact ⟨harrived, fun before y hy => h.live before y (htaken ▸ hy),
          hstands.congr (hw'.trans hw.symm) htaken rfl rfl⟩

/-- What the loop does with all it was handed, once the consumer has been handed a frame. -/
theorem consume_handed {s : Stage} {before : List (Option Frame)} {e : Frame}
    (hb : s.ch.taken = before ++ [some e]) : s.taken = before.reduceOption ++ [e] := by
  rw [taken, hb, List.reduceOption_append]; rfl

/-- **A step of the consumer.** -/
theorem Faithful.resume {s s' : Stage} (h : s.Faithful th) (hs : Resumes th s s') : s'.Faithful th := by
  have hstands := h.stands
  cases hs with
  | quit hc ht =>
      -- the consumer checks the flag only while it is not set
      rcases hc with ⟨x, hc⟩ | ⟨complete, hc⟩
      · rw [hc] at hstands; exact absurd (ht.symm.trans hstands.2.1) (by simp)
      · rw [hc] at hstands; exact absurd (ht.symm.trans hstands.2.1) (by simp)
  | @skip x hc ht hx =>
      rw [hc] at hstands
      obtain ⟨_, _, before, hb, hdone⟩ := hstands
      refine .awaitNext h.arrived h.live ht ?_
      cases x with
      | none => rw [taken, hb, List.reduceOption_append, List.reduceOption_singleton]
                exact (congrArg _ (List.append_nil _)).trans hdone
      | some e => rw [consume_handed hb, Theater.consume_concat hdone, hx e rfl]
  | @stage e running complete hc ht hr =>
      rw [hc] at hstands
      obtain ⟨hw, _, before, hb, hdone⟩ := hstands
      refine ⟨h.arrived, h.live, hw, ht, ?_⟩
      show th.consume s.taken = _
      rw [consume_handed hb, Theater.consume_concat hdone, hr, List.append_assoc]
  | @stop e first after hc ht hr =>
      rw [hc] at hstands
      obtain ⟨hw, _, before, hb, hdone⟩ := hstands
      have hend : th.consume s.taken = (s.acts ++ first ++ after, true) := by
        rw [consume_handed hb, Theater.consume_concat hdone, hr, List.append_assoc]
      refine ⟨h.arrived, h.live, ?_⟩
      by_cases hafter : after = []
      · show Stands th _ (if after = [] then _ else _)
        rw [if_pos hafter]
        rw [hafter, List.append_nil] at hend
        exact ⟨hw, rfl, hend⟩
      · show Stands th _ (if after = [] then _ else _)
        rw [if_neg hafter]
        exact ⟨hw, rfl, hend⟩
  | completed hc ht =>
      rw [hc] at hstands
      exact ⟨h.arrived, h.live, hstands⟩
  | next hc =>
      rw [hc] at hstands
      exact .awaitNext h.arrived h.live hstands.2.1 hstands.2.2
  | sealed hc =>
      rw [hc] at hstands
      exact ⟨h.arrived, h.live, hstands⟩

theorem Faithful.step {s s' : Stage} {a : Happening} (h : s.Faithful th) (hs : s.step th a = some s') :
    s'.Faithful th := by
  cases a with
  | message data =>
      cases data with
      | none => cases hs; exact h
      | some x => cases hs; exact h.push x
  | error =>
      simp only [Stage.step, Option.some.injEq] at hs
      subst hs
      split
      · exact h
      · exact h.push _
  | resume => exact h.resume (resume_cases hs)

/-! ## The consumer gets through -/

/-- The consumer waits for an event, or it has returned. -/
def AtRest (s : Stage) : Prop := s.consumer = .waiting ∨ s.consumer = .returned

/-- How many times at most the consumer goes on before it is at rest. -/
def todo (s : Stage) : Nat :=
  4 * s.ch.buf.length + match s.consumer with
    | .handed _ => 3
    | .running _ => 2
    | .complete | .sealing _ => 1
    | .waiting | .returned => 0

theorem todo_awaitNext (s : Stage) : s.awaitNext.todo ≤ 4 * s.ch.buf.length ∧
    s.awaitNext.arrived = s.arrived := by
  unfold awaitNext
  rcases s.ch.next_cases with ⟨x, rest, hbuf, hx, _, _, hrest⟩ | ⟨hbuf, hx, _, _, hrest⟩
  · split
    · rename_i ch x' hch
      rw [hch] at hrest
      have hrest : ch.buf = rest := hrest
      refine ⟨?_, rfl⟩
      simp only [todo, hrest, hbuf, List.length_cons]
      omega
    · rename_i ch hch; rw [hch] at hx; exact absurd hx (by simp)
  · split
    · rename_i ch x' hch; rw [hch] at hx; exact absurd hx (by simp)
    · rename_i ch hch
      rw [hch] at hrest
      have hrest : ch.buf = [] := hrest
      exact ⟨by simp [todo, hrest], rfl⟩

theorem todo_resume {s s' : Stage} (hs : Resumes th s s') :
    s'.todo < s.todo ∧ s'.arrived = s.arrived := by
  cases hs with
  | quit hc ht => rcases hc with ⟨x, hc⟩ | ⟨complete, hc⟩ <;> simp [todo, hc]
  | skip hc ht hx =>
      obtain ⟨hle, harr⟩ := s.todo_awaitNext
      refine ⟨lt_of_le_of_lt hle ?_, harr⟩
      simp [todo, hc]
  | stage hc ht hr => simp [todo, hc]
  | @stop _ _ after hc ht hr => by_cases h : after = [] <;> simp [todo, hc, h]
  | completed hc ht => simp [todo, hc]
  | next hc =>
      obtain ⟨hle, harr⟩ := s.todo_awaitNext
      refine ⟨lt_of_le_of_lt hle ?_, harr⟩
      simp [todo, hc]
  | sealed hc => simp [todo, hc]

theorem resume_isSome (th : Theater) {s : Stage} (hrest : ¬ s.AtRest) : ∃ s', s.resume th = some s' := by
  rw [← Option.isSome_iff_exists]
  cases hc : s.consumer with
  | waiting => exact absurd (.inl hc) hrest
  | returned => exact absurd (.inr hc) hrest
  | handed x => simp [resume, hc]
  | running complete => simp only [resume, hc]; split <;> rfl
  | complete => simp [resume, hc]
  | sealing rest => simp [resume, hc]

/-- **With nothing new arriving, the consumer comes to rest.** -/
theorem rests (th : Theater) : ∀ (n : Nat) (s : Stage), s.todo ≤ n → ∃ k t,
    exec (Stage.step th) s (List.replicate k .resume) = some t ∧ t.arrived = s.arrived ∧ t.AtRest := by
  intro n
  induction n with
  | zero =>
      intro s hn
      refine ⟨0, s, exec_nil s, rfl, ?_⟩
      by_contra hrest
      obtain ⟨s', hs⟩ := resume_isSome th hrest
      exact absurd (todo_resume (resume_cases hs)).1 (by omega)
  | succ n ih =>
      intro s hn
      by_cases hrest : s.AtRest
      · exact ⟨0, s, exec_nil s, rfl, hrest⟩
      · obtain ⟨s', hs⟩ := resume_isSome th hrest
        obtain ⟨hlt, harr⟩ := todo_resume (resume_cases hs)
        obtain ⟨k, t, hrun, ht, hat⟩ := ih s' (by omega)
        exact ⟨k + 1, t, exec_cons_iff.mpr ⟨s', hs, hrun⟩, ht.trans harr, hat⟩

/-! ## The acts of a run -/

theorem push_arrived (s : Stage) (x : Option Frame) : (s.push x).arrived = s.arrived ++ [x] := by
  unfold Stage.push
  split <;> rfl

/-- What happens pushes each frame once, whether or not the page still listens; a text that is no JSON pushes
    nothing. -/
def delivered : Happening → Option (Option Frame)
  | .message data => data
  | _ => none

/-- While nothing is decided, a break of the connection pushes the connection-lost marker besides. -/
def announced : Happening → Option (Option Frame)
  | .error => some (some sseError)
  | a => delivered a

theorem push_terminated (s : Stage) (x : Option Frame) : (s.push x).terminated = s.terminated := by
  unfold Stage.push
  split <;> rfl

theorem awaitNext_terminated (s : Stage) : s.awaitNext.terminated = s.terminated := by
  unfold Stage.awaitNext
  split <;> rfl

/-- **What a step pushes**, and when it decides the run: the consumer goes on with a decisive frame. -/
theorem step_arrived {s s' : Stage} {a : Happening} (hs : s.step th a = some s') :
    s'.arrived = s.arrived ++ (if s.terminated then delivered a else announced a).toList ∧
      (s'.terminated = s.terminated ∨
        s'.terminated = true ∧ a = .resume ∧ s.terminated = false ∧
          ∃ e, s.consumer = .handed (some e) ∧ e.Decisive) := by
  cases a with
  | message data =>
      have hsame : (if s.terminated then delivered (.message data) else announced (.message data)) = data :=
        ite_self _
      rw [hsame]
      cases data with
      | none => cases hs; exact ⟨(List.append_nil _).symm, .inl rfl⟩
      | some x => cases hs; exact ⟨push_arrived s x, .inl (push_terminated s x)⟩
  | error =>
      simp only [Stage.step, Option.some.injEq] at hs
      subst hs
      by_cases ht : s.terminated = true
      · rw [if_pos ht, if_pos ht]
        exact ⟨(List.append_nil _).symm, .inl rfl⟩
      · rw [if_neg ht, if_neg ht]
        exact ⟨push_arrived s _, .inl (push_terminated s _)⟩
  | resume =>
      have hs := resume_cases hs
      have hsame : (if s.terminated then delivered .resume else announced .resume) = none := ite_self _
      rw [hsame]
      refine ⟨(todo_resume hs).2.trans (List.append_nil _).symm, ?_⟩
      cases hs with
      | quit hc ht => exact .inl rfl
      | skip hc ht hx => exact .inl (awaitNext_terminated s)
      | stage hc ht hr => exact .inl rfl
      | stop hc ht hr => exact .inr ⟨rfl, rfl, ht, _, hc, (th.react_stop_iff).mp ⟨_, hr⟩⟩
      | completed hc ht => exact .inl rfl
      | next hc => exact .inl (awaitNext_terminated s)
      | sealed hc => exact .inl rfl

theorem filterMap_cons (f : Happening → Option (Option Frame)) (a : Happening) (as : List Happening) :
    (a :: as).filterMap f = (f a).toList ++ as.filterMap f := by
  cases h : f a <;> simp [h]

/-- Once the run is decided, only the frames are pushed. -/
theorem arrived_decided : ∀ (as : List Happening) {s t : Stage}, exec (Stage.step th) s as = some t →
    s.terminated = true → t.arrived = s.arrived ++ as.filterMap delivered := by
  intro as
  induction as with
  | nil => intro s t he _; rw [exec_nil] at he; cases he; exact (List.append_nil _).symm
  | cons a as ih =>
      intro s t he ht
      obtain ⟨s', hs, hrest⟩ := exec_cons_iff.mp he
      obtain ⟨harr, hterm | ⟨_, _, hopen, _⟩⟩ := step_arrived hs
      · rw [ih hrest (hterm.trans ht), harr, if_pos ht, filterMap_cons, List.append_assoc]
      · exact absurd (hopen.symm.trans ht) Bool.false_ne_true

/-- What is pushed over some happenings: while nothing is decided, each frame and a marker for each break of the
    connection; from the moment the consumer goes on with a decisive frame, the frames alone. -/
inductive Pushes (th : Theater) (s : Stage) (as : List Happening) : List (Option Frame) → Prop where
  | undecided {t : Stage} (hrun : exec (Stage.step th) s as = some t) (ht : t.terminated = false) :
      Pushes th s as (as.filterMap announced)
  | decided {before after : List Happening} {m : Stage} {e : Frame} (has : as = before ++ .resume :: after)
      (hrun : exec (Stage.step th) s before = some m) (ht : m.terminated = false)
      (hc : m.consumer = .handed (some e)) (he : e.Decisive) :
      Pushes th s as (before.filterMap announced ++ after.filterMap delivered)

theorem pushes_of_run : ∀ (as : List Happening) {s t : Stage}, exec (Stage.step th) s as = some t →
    s.terminated = false → ∃ new, t.arrived = s.arrived ++ new ∧ Pushes th s as new := by
  intro as
  induction as with
  | nil =>
      intro s t he ht
      rw [exec_nil] at he
      cases he
      exact ⟨[], (List.append_nil _).symm, .undecided (exec_nil s) ht⟩
  | cons a as ih =>
      intro s t he ht
      obtain ⟨s', hs, hrest⟩ := exec_cons_iff.mp he
      obtain ⟨harr, hterm | ⟨hterm, rfl, _, e, hc, hdec⟩⟩ := step_arrived hs
      · obtain ⟨new, hnew, hpushes⟩ := ih hrest (hterm.trans ht)
        refine ⟨(announced a).toList ++ new, ?_, ?_⟩
        · rw [hnew, harr, ht, if_neg Bool.false_ne_true, List.append_assoc]
        · cases hpushes with
          | undecided hrun ht' => rw [← filterMap_cons]; exact .undecided (exec_cons_iff.mpr ⟨s', hs, hrun⟩) ht'
          | @decided before after m e has hrun hm hc hdec =>
              rw [← List.append_assoc, ← filterMap_cons]
              exact .decided (by rw [has]; rfl) (exec_cons_iff.mpr ⟨s', hs, hrun⟩) hm hc hdec
      · refine ⟨as.filterMap delivered, ?_, ?_⟩
        · rw [arrived_decided as hrest hterm, harr, ht, if_neg Bool.false_ne_true]
          exact congrArg (· ++ _) (List.append_nil _)
        · exact .decided (show _ = [] ++ Happening.resume :: as from rfl) (exec_nil s) ht hc hdec

/-- Nothing that has arrived goes away. -/
theorem arrived_prefix {as : List Happening} {s t : Stage} (h : exec (Stage.step th) s as = some t) :
    s.arrived <+: t.arrived := by
  cases ht : s.terminated with
  | true => exact ⟨_, (arrived_decided as h ht).symm⟩
  | false =>
      obtain ⟨new, hnew, _⟩ := pushes_of_run as h ht
      exact ⟨new, hnew.symm⟩

/-- What the page has been told is the beginning of what the loop tells it, and all of it at rest. -/
theorem Faithful.acts_prefix {s : Stage} (h : s.Faithful th) :
    s.acts <+: (th.consume s.arrived.reduceOption).1 := by
  have harr : s.arrived.reduceOption = s.taken ++ s.ch.buf.reduceOption := by
    rw [← h.arrived, AsyncQueue.pushed, List.reduceOption_append]; rfl
  -- the loop over all that arrived begins with the loop over what was handed to the consumer
  have hmore : ∀ es fs : List Frame, (th.consume es).1 <+: (th.consume (es ++ fs)).1 := by
    intro es fs
    cases hend : (th.consume es).2 with
    | true => rw [Theater.consume_append_ended hend]
    | false => rw [Theater.consume_append_live hend]; exact List.prefix_append ..
  rw [harr]
  refine List.IsPrefix.trans ?_ (hmore s.taken _)
  have hstands := h.stands
  cases hc : s.consumer with
  | waiting => rw [hc] at hstands; rw [hstands.2.2]
  | handed x =>
      rw [hc] at hstands
      obtain ⟨_, _, before, hb, hdone⟩ := hstands
      have := hmore before.reduceOption [x].reduceOption
      rw [hdone] at this
      rw [taken, hb, List.reduceOption_append]
      exact this
  | running c => rw [hc] at hstands; rw [hstands.2.2]; exact List.prefix_append ..
  | complete => rw [hc] at hstands; rw [hstands.2.2]
  | sealing r => rw [hc] at hstands; rw [hstands.2.2]; exact List.prefix_append ..
  | returned => rw [hc] at hstands; rw [hstands.2.2]

/-- The loop over frames none of which is decisive has not ended. -/
theorem live_of_not_decisive (th : Theater) {xs : List (Option Frame)} (h : ∀ e, some e ∈ xs → ¬ e.Decisive) :
    (th.consume xs.reduceOption).2 = false :=
  Theater.consume_live_iff.mpr fun e he => h e (List.reduceOption_mem_iff.mp he)

/-- A waiting consumer has been handed all that arrived. -/
theorem Faithful.taken_of_waiting {s : Stage} (h : s.Faithful th) (hc : s.consumer = .waiting) :
    s.ch.taken = s.arrived := by
  have hstands := h.stands
  rw [hc] at hstands
  rw [← h.arrived, AsyncQueue.pushed, s.ch.idle hstands.1, List.append_nil]

/-- **Nothing is handed over after a decisive frame.** -/
theorem Faithful.taken_prefix {s : Stage} (h : s.Faithful th) {before after : List (Option Frame)}
    {e : Frame} (harr : s.arrived = before ++ some e :: after) (he : e.Decisive) :
    s.ch.taken <+: before ++ [some e] := by
  have htaken : s.ch.taken <+: s.arrived := h.arrived ▸ List.prefix_append ..
  have hupto : before ++ [some e] <+: s.arrived := by
    rw [harr]; exact ⟨after, by rw [List.append_assoc]; rfl⟩
  rcases List.prefix_or_prefix_of_prefix htaken hupto with hle | hle
  · exact hle
  · obtain ⟨more, hmore⟩ := hle
    rcases List.eq_nil_or_concat more with rfl | ⟨more, x, rfl⟩
    · rw [← hmore, List.append_nil]
    · -- the loop had ended before `x` was handed over
      have hlive := h.live (before ++ [some e] ++ more) x
        (by rw [← hmore, List.concat_eq_append]; simp)
      have hmem : e ∈ (before ++ [some e] ++ more).reduceOption :=
        List.reduceOption_mem_iff.mpr (by simp)
      exact absurd he (Theater.consume_live_iff.mp hlive e hmem)

/-- What the page is told by a decisive frame that nothing decisive came before, and by all that arrived. -/
theorem consume_arrived {s : Stage} {before after : List (Option Frame)} {e : Frame}
    {stop : List Act} (harr : s.arrived = before ++ some e :: after)
    (hbefore : ∀ e', some e' ∈ before → ¬ e'.Decisive) (hstop : th.react e = .stop stop) :
    th.consume (before.reduceOption ++ [e]) = ((th.consume before.reduceOption).1 ++ stop, true) ∧
      th.consume s.arrived.reduceOption = ((th.consume before.reduceOption).1 ++ stop, true) := by
  have hlive := live_of_not_decisive th hbefore
  have hend : th.consume (before.reduceOption ++ [e])
      = ((th.consume before.reduceOption).1 ++ stop, true) := by
    rw [Theater.consume_concat (Prod.ext rfl hlive), hstop]
  refine ⟨hend, ?_⟩
  have hsplit : s.arrived.reduceOption = before.reduceOption ++ [e] ++ after.reduceOption := by
    rw [harr, List.reduceOption_append, List.append_assoc]; rfl
  rw [hsplit, Theater.consume_append_ended (by rw [hend]), hend]

/-- **At rest after a decisive frame**: the consumer has returned, the frame is the last it was handed, and
    the page was told what the frame decides. -/
theorem Faithful.rest_decisive {s : Stage} (h : s.Faithful th) {before after : List (Option Frame)}
    {e : Frame} {stop : List Act} (harr : s.arrived = before ++ some e :: after)
    (hbefore : ∀ e', some e' ∈ before → ¬ e'.Decisive) (he : e.Decisive)
    (hstop : th.react e = .stop stop) (hrest : s.AtRest) :
    s.consumer = .returned ∧ s.ch.taken = before ++ [some e] ∧
      s.acts = (th.consume before.reduceOption).1 ++ stop := by
  obtain ⟨hend, hall⟩ := consume_arrived harr hbefore hstop
  have hstands := h.stands
  rcases hrest with hc | hc
  · -- all that arrived was handed over, the decisive frame included
    rw [hc] at hstands
    have := hstands.2.2
    have htaken := h.taken_of_waiting hc
    rw [taken, htaken, hall] at this
    exact absurd (congrArg Prod.snd this) (by simp)
  · rw [hc] at hstands
    -- the loop over what was handed over has ended, so the decisive frame is among it
    have htaken : s.ch.taken = before ++ [some e] := by
      rcases List.prefix_concat_iff.mp (h.taken_prefix harr he) with htaken | hshort
      · exact htaken
      · have := live_of_not_decisive th fun e' he' => hbefore e' (hshort.mem he')
        exact absurd ((congrArg Prod.snd hstands.2.2).symm.trans this) (by simp)
    refine ⟨hc, htaken, ?_⟩
    have := hstands.2.2
    rw [consume_handed htaken, hend] at this
    exact (congrArg Prod.fst this).symm

/-- **At rest with nothing decided**: the consumer waits, and has consumed all that arrived. -/
theorem Faithful.rest_undecided {s : Stage} (h : s.Faithful th)
    (hno : ∀ e, some e ∈ s.arrived → ¬ e.Decisive) (hrest : s.AtRest) :
    s.consumer = .waiting ∧ s.ch.taken = s.arrived ∧
      s.acts = (th.consume s.arrived.reduceOption).1 := by
  have hstands := h.stands
  rcases hrest with hc | hc
  · rw [hc] at hstands
    have := hstands.2.2
    have htaken := h.taken_of_waiting hc
    rw [taken, htaken] at this
    exact ⟨hc, htaken, (congrArg Prod.fst this).symm⟩
  · rw [hc] at hstands
    have htaken : s.ch.taken <+: s.arrived := h.arrived ▸ List.prefix_append ..
    have := live_of_not_decisive th fun e he => hno e (htaken.mem he)
    exact absurd ((congrArg Prod.snd hstands.2.2).symm.trans this) (by simp)

end Stage

/-- **Paced consumption is faithful.** Whatever arrives, breaks off and settles in whatever order: each frame is
    pushed once, and a marker for each break until the consumer goes on with a decisive frame; and the
    consumer is handed what was pushed, in order, each once. A decisive frame that nothing decisive came
    before is the last it is handed and decides how the run ends, whatever else is queued; short of one,
    every frame is consumed. And the consumer always gets through. -/
theorem paced_faithful (th : Theater) {as : List Happening} {s : Stage}
    (hrun : exec (Stage.step th) .start as = some s) :
    Stage.Pushes th .start as s.arrived ∧ s.ch.taken ++ s.ch.buf = s.arrived ∧
    (∀ before e after, s.arrived = before ++ some e :: after →
      (∀ e', some e' ∈ before → ¬ e'.Decisive) → e.Decisive →
        ∃ stop, th.react e = .stop stop ∧ s.ch.taken <+: before ++ [some e] ∧
          s.acts <+: (th.consume before.reduceOption).1 ++ stop ∧
          (∀ a ∈ (th.consume before.reduceOption).1, ¬ a.Terminal) ∧
          (s.AtRest → s.consumer = .returned ∧ s.ch.taken = before ++ [some e] ∧
            s.acts = (th.consume before.reduceOption).1 ++ stop)) ∧
    ((∀ e, some e ∈ s.arrived → ¬ e.Decisive) →
      s.acts <+: (th.consume s.arrived.reduceOption).1 ∧
        (∀ a ∈ (th.consume s.arrived.reduceOption).1, ¬ a.Terminal) ∧
        (s.AtRest → s.consumer = .waiting ∧ s.ch.taken = s.arrived ∧
          s.acts = (th.consume s.arrived.reduceOption).1)) ∧
    ∃ k t, exec (Stage.step th) s (List.replicate k .resume) = some t ∧ t.arrived = s.arrived ∧
      t.AtRest := by
  have h : s.Faithful th := exec_invariant (fun _ _ _ h hs => h.step hs) as .start hrun
  refine ⟨?_, h.arrived, ?_, ?_, Stage.rests th _ s le_rfl⟩
  · obtain ⟨new, hnew, hpushes⟩ := Stage.pushes_of_run as hrun rfl
    rw [hnew]
    exact hpushes
  · intro before e after harr hbefore he
    obtain ⟨stop, hstop⟩ := (th.react_stop_iff).mpr he
    have hlive := Stage.live_of_not_decisive th hbefore
    have hall := (Stage.consume_arrived harr hbefore hstop).2
    refine ⟨stop, hstop, h.taken_prefix harr he, ?_, Theater.not_terminal_of_live hlive, ?_⟩
    · have := h.acts_prefix
      rwa [hall] at this
    · exact h.rest_decisive harr hbefore he hstop
  · intro hno
    have hlive := Stage.live_of_not_decisive th hno
    exact ⟨h.acts_prefix, Theater.not_terminal_of_live hlive, h.rest_undecided hno⟩

/-- A stage of the sample's flow. -/
def sampleFrame : Frame := frameOf (.step { key := "intent", label := "Intent", hash := "", status := .complete })

/-- The end of the stream of a run that completes: its last events and at once the break of the connection, all of
    them queued before the consumer goes on; it breaks once more when all is decided. -/
def sampleArrivals : List Happening :=
  [.message (some (some sampleFrame)), .message (some (some (frameOf (.done "a1b2")))), .error, .message none] ++
    List.replicate 4 .resume ++ [.error, .resume]

theorem paced_faithful_sample : ∃ s, exec (Stage.step (.new "local" [])) .start sampleArrivals = some s ∧
    s.AtRest ∧ s.ch.taken = [some sampleFrame, some (frameOf (.done "a1b2"))] ∧
      s.acts.getLast? = some (.navigate "#/r/a1b2") := by
  obtain ⟨s, hrun, hc, harr⟩ : ∃ s, exec (Stage.step (.new "local" [])) .start sampleArrivals = some s ∧
      s.consumer = .returned ∧ s.arrived = [some sampleFrame, some (frameOf (.done "a1b2")), some sseError] :=
    ⟨_, rfl, rfl, rfl⟩
  obtain ⟨_, _, hdecisive, _⟩ := paced_faithful _ hrun
  have hstage : ¬ sampleFrame.Decisive := by
    rintro (⟨_, st, hst, hf⟩ | ⟨hdone, _⟩ | herror | hlost)
    · cases hst; exact absurd hf (by decide)
    · exact absurd hdone (by decide)
    · exact absurd herror (by decide)
    · exact absurd hlost (by decide)
  obtain ⟨stop, hstop, _, _, _, hend⟩ := hdecisive [some sampleFrame] _ _ harr
    (fun e he => by cases List.mem_singleton.mp he; exact hstage) (.inr (.inl ⟨rfl, "a1b2", rfl, by decide⟩))
  obtain ⟨_, htaken, hacts⟩ := hend (.inr hc)
  cases hstop
  exact ⟨s, hrun, .inr hc, htaken, by rw [hacts]; rfl⟩

end Web
end InfrixPlayground
