import InfrixPlayground.Web.Visit

/-!
# `Web.Completion` — a connection that holds brings the whole run

The handler of a visitor that did not subscribe in the gap reads a channel that misses nothing (`Fed`). Once
the run is over, what is still in that channel can be written, what is on its way can arrive, and the consumer
gets through: the page has then done what the loop does with the whole history (`visit_completes`).
-/

namespace InfrixPlayground
namespace Web

open Api Worker Machine EventStream

variable {X : Externals} {rn : Runner X} {th : Theater} {id : String}

/-! ## The channel of a visit -/

/-- Not a `Subscribe` in the gap. -/
def InTime (id : String) (v : Visit X) (a : VisitAction) : Prop :=
  a = .connect → ∀ t, v.manager.runs.lookup id = some t → ∀ out, t.ctl ≠ .finishing out .publish

/-- The open connection is read from a channel that misses nothing. -/
def Fed (id : String) (v : Visit X) : Prop :=
  ∀ c, v.source = .opened c → ∃ t s, v.manager.runs.lookup id = some t ∧ t.run.subs[c.sub]? = some s ∧ t.Feeds s

theorem Fed.step {v v' : Visit X} {a : VisitAction} (hm : Backed rn v.manager) (h : Fed id v)
    (hintime : InTime id v a) (hs : VisitStep th id v a v') : Fed id v' := by
  cases hs with
  | @server a m howns hs =>
      intro c hc
      obtain ⟨t, s, hl, hsub, hfeeds⟩ := h c hc
      rw [show v.source = .opened c from hc] at howns
      obtain ⟨t', hl', rfl | ⟨b, rfl, hb⟩⟩ := hs.own hm.registry hl
      · exact ⟨t', s, hl', hsub, hfeeds⟩
      · have hunsub : b ≠ .unsub c.sub := by rintro rfl; simp [EventSource.owns] at howns
        have hrecv : b ≠ .recv c.sub := by rintro rfl; simp [EventSource.owns] at howns
        obtain ⟨s', hsub', hfeeds', _⟩ :=
          hfeeds.step (hm.runs.runs id t hl).delivers hsub hb hunsub hrecv
        exact ⟨t', s', hl', hsub', hfeeds'⟩
  | @connect t m hc hl hs =>
      intro c hc'
      cases hc'
      obtain ⟨u, u', hl', hb, hu'⟩ := ran hs
      cases Option.some.inj (hl.symm.trans hl')
      cases hb
      obtain ⟨s, hsub, _, hsent, hreg⟩ := getElem?_subscribe t.run
      have hfeeds : t.Feeds s :=
        feeds_subscribe (hm.runs.runs id t hl).delivers.consistent (hintime rfl t hl) hsent hreg
      have hhistory : t.run.subscribe.history = t.run.history := by
        obtain ⟨_, heq⟩ := t.run.subscribe_eq
        rw [heq]
      exact ⟨_, s, hu', hsub, hfeeds.sent.trans hhistory.symm, hfeeds.goesOn⟩
  | @write c t s e rest m hc hl hsub hbuf hs =>
      intro c' hc'
      cases hc'
      obtain ⟨u, s₀, hlu, hsub₀, hfeeds⟩ := h c hc
      cases Option.some.inj (hl.symm.trans hlu)
      cases Option.some.inj (hsub.symm.trans hsub₀)
      obtain ⟨u, u', hl', hb, hu'⟩ := ran hs
      cases Option.some.inj (hl.symm.trans hl')
      cases hb
      exact ⟨_, _, hu', getElem?_recv hsub, (Chan.sent_recv s.chan).trans hfeeds.sent, hfeeds.goesOn⟩
  | @arrive c ch text stage hc htext hs => intro c' hc'; cases hc'; exact h c hc
  | lost ha hclosed hopened hs => intro c hc; exact absurd hc (hopened c)
  | @resume stage hs =>
      intro c hc
      replace hc : (if stage.terminated then EventSource.closed else v.source) = .opened c := hc
      split at hc
      · cases hc
      · exact h c hc

/-- **A visit that came in time is fed**, at any moment. -/
theorem fed_exec {m : RunManager X} (hm : Backed rn m) {as : List VisitAction} {v : Visit X}
    (hintime : Meets (Visit.step th id) (InTime id) (.start m) as)
    (hv : exec (Visit.step th id) (.start m) as = some v) : Fed id v := by
  have h : Sound rn th id v ∧ Fed id v :=
    exec_guarded (P := fun v => Sound rn th id v ∧ Fed id v)
      (fun _ _ _ hi hok hs => ⟨hi.1.step (visit_step hs), hi.2.step hi.1.backed hok (visit_step hs)⟩) as
      ⟨sound_start hm th id, fun c hc => by cases hc⟩ hintime hv
  exact h.2

/-! ## Getting through -/

/-- Nothing has broken: what has arrived are the events whose messages are complete. -/
structure Unbroken (id : String) (v : Visit X) (c : Connection) (t : Task X) (got : List Event) : Prop where
  opened : v.source = .opened c
  run : v.manager.runs.lookup id = some t
  arrived : v.stage.arrived = (frames got).map some
  carries : c.Carries t got

/-- An open connection without an error. -/
theorem Sound.unbroken {v : Visit X} (h : Sound rn th id v) {c : Connection} (hc : v.source = .opened c)
    (hquiet : some sseError ∉ v.stage.arrived) : ∃ t got, Unbroken id v c t got := by
  obtain ⟨got, _, ⟨harr, hair⟩ | ⟨_, more, harr⟩⟩ := h.heard
  · rw [hc] at hair
    obtain ⟨t, hl, hcarries⟩ := hair
    exact ⟨t, got, hc, hl, harr, hcarries⟩
  · exact absurd (by rw [harr]; simp) hquiet

/-- **What is buffered can be written.** -/
theorem Unbroken.writes : ∀ (n : Nat) {v : Visit X} {c : Connection} {t : Task X} {got : List Event} {s : Sub},
    Unbroken id v c t got → t.run.subs[c.sub]? = some s → s.chan.buf.length = n →
    ∃ v' c' t' s', exec (Visit.step th id) v (List.replicate n .write) = some v' ∧ Unbroken id v' c' t' got ∧
      v'.stage = v.stage ∧ t'.run.subs[c'.sub]? = some s' ∧ s'.chan.buf = [] ∧
      s'.chan.sent = s.chan.sent ∧ t'.run.history = t.run.history := by
  intro n
  induction n with
  | zero =>
      intro v c t got s h hsub hn
      exact ⟨v, c, t, s, rfl, h, rfl, hsub, List.length_eq_zero_iff.mp hn, rfl, rfl⟩
  | succ n ih =>
      intro v c t got s h hsub hn
      obtain ⟨e, rest, hbuf⟩ := List.exists_cons_of_length_eq_add_one hn
      have hhead : head v.manager id c.sub = some e := by
        simp only [head, h.run, Option.bind_some, hsub, hbuf, List.head?_cons]
      -- the handler receives it and writes its frame
      let t₁ : Task X := { t with run := t.run.recv c.sub }
      let m₁ : RunManager X := { v.manager with runs := v.manager.runs.insert id t₁ }
      let c₁ : Connection := { c with text := c.text ++ frame e.text }
      have hm : v.manager.step (.run id (.recv c.sub)) = some m₁ := by
        simp only [RunManager.step, h.run, RunManager.possible, Task.step]
        rfl
      have hstep : v.step th id .write = some { v with manager := m₁, source := .opened c₁ } := by
        simp only [Visit.step, h.opened, hhead, hm, Option.map_some]
        rfl
      have h₁ : Unbroken id { v with manager := m₁, source := .opened c₁ } c₁ t₁ got := by
        obtain ⟨s₀, cs, hsub₀, htext, hparser, hmsgs, hgot⟩ := h.carries
        cases Option.some.inj (hsub.symm.trans hsub₀)
        have htaken := Chan.taken_recv hbuf
        refine ⟨rfl, AList.lookup_insert _, h.arrived, _, cs, getElem?_recv hsub, ?_, hparser, hmsgs, ?_⟩
        · show cs ++ (c.text ++ frame e.text) = streamText s.chan.recv.taken
          rw [htaken, streamText_append, ← htext, List.append_assoc]
          simp [streamText]
        · show got <+: s.chan.recv.taken
          rw [htaken]
          exact hgot.trans (List.prefix_append ..)
      have hlen : s.chan.recv.buf.length = n := by
        rw [Chan.buf_recv hbuf]
        rw [hbuf] at hn
        exact Nat.succ.inj hn
      obtain ⟨v', c', t', s', hrun, h', hstage, hsub', hempty, hsent, hhistory⟩ :=
        ih h₁ (getElem?_recv hsub) hlen
      exact ⟨v', c', t', s', exec_cons_iff.mpr ⟨_, hstep, hrun⟩, h', hstage, hsub', hempty,
        hsent.trans (Chan.sent_recv s.chan), hhistory⟩

/-- The messages of a stream can be handed over. -/
theorem exec_dispatched_some (th : Theater) (msgs : List Message) (s : Stage) :
    ∃ s', exec (Stage.step th) s (dispatched msgs) = some s' := by
  unfold dispatched
  generalize msgs.filter (fun msg => msg.type == "message") = heard
  induction heard generalizing s with
  | nil => exact ⟨s, rfl⟩
  | cons msg heard ih =>
      obtain ⟨u, hu⟩ : ∃ u, s.step th (onmessage msg) = some u := by
        unfold onmessage
        cases (Json.parse msg.data).map readFrame with
        | none => exact ⟨s, rfl⟩
        | some x => exact ⟨s.push x, rfl⟩
      obtain ⟨s', hs'⟩ := ih u
      exact ⟨s', exec_cons_iff.mpr ⟨u, hu, hs'⟩⟩

/-- **What is on its way can arrive.** -/
theorem Unbroken.arrives : ∀ (text : List Char) {v : Visit X} {c : Connection} {t : Task X} {got : List Event},
    Unbroken id v c t got → c.text = text →
    ∃ v' c' got', exec (Visit.step th id) v (List.replicate text.length .arrive) = some v' ∧
      Unbroken id v' c' t got' ∧ c'.text = [] ∧ c'.sub = c.sub := by
  intro text
  induction text with
  | nil => intro v c t got h htext; exact ⟨v, c, got, rfl, h, htext, rfl⟩
  | cons ch text ih =>
      intro v c t got h htext
      obtain ⟨stage, hstage⟩ := exec_dispatched_some th (c.parser.feed ch).2.toList v.stage
      let c₁ : Connection := { c with text, parser := (c.parser.feed ch).1 }
      have hstep : v.step th id .arrive = some { v with source := .opened c₁, stage } := by
        obtain ⟨sub, text', parser⟩ := c
        cases htext
        simp only [Visit.step, h.opened, hstage, Option.map_some]
        rfl
      obtain ⟨got₁, harr, hcarries⟩ := h.carries.arrived htext h.arrived hstage
      obtain ⟨v', c', got', hrun, h', hempty, hsub⟩ :=
        ih (v := { v with source := .opened c₁, stage }) ⟨rfl, h.run, harr, hcarries⟩ rfl
      exact ⟨v', c', got', exec_cons_iff.mpr ⟨_, hstep, hrun⟩, h', hempty, hsub⟩

/-- What the consumer does on its own, it does in a visit. -/
theorem resumes : ∀ (n : Nat) {v : Visit X} {stage : Stage},
    exec (Stage.step th) v.stage (List.replicate n .resume) = some stage →
    ∃ v', exec (Visit.step th id) v (List.replicate n .resume) = some v' ∧ v'.stage = stage ∧
      v'.manager = v.manager := by
  intro n
  induction n with
  | zero => intro v stage h; cases h; exact ⟨v, rfl, rfl, rfl⟩
  | succ n ih =>
      intro v stage h
      obtain ⟨u, hu, hrest⟩ := exec_cons_iff.mp h
      have hstep : v.step th id .resume =
          some { v with stage := u, source := if u.terminated then .closed else v.source } := by
        show (v.stage.resume th).map _ = _
        rw [show v.stage.resume th = some u from hu]
        rfl
      obtain ⟨v', hrun, hstage, hmanager⟩ :=
        ih (v := { v with stage := u, source := if u.terminated then .closed else v.source }) hrest
      exact ⟨v', exec_cons_iff.mpr ⟨_, hstep, hrun⟩, hstage, hmanager⟩

/-- **All that was sent has arrived** once nothing is buffered and nothing is on its way. -/
theorem Connection.Carries.all {t : Task X} {c : Connection} {got : List Event} (h : c.Carries t got)
    (htext : c.text = []) {s : Sub} (hsub : t.run.subs[c.sub]? = some s) (hbuf : s.chan.buf = []) :
    got = s.chan.sent := by
  obtain ⟨s₀, cs, hsub₀, hall, _, hmsgs, hgot⟩ := h
  cases Option.some.inj (hsub.symm.trans hsub₀)
  rw [htext, List.append_nil] at hall
  have hprefix : cs <+: streamText s.chan.taken := hall ▸ List.prefix_rfl
  obtain ⟨k, hk, hcut, _, hlt⟩ := messages_cut hprefix
  have hlen : k = s.chan.taken.length := by
    rcases Nat.lt_or_eq_of_le hk with h | h
    · -- the stream would be shorter than a beginning of itself
      have hle : (streamText (s.chan.taken.take (k + 1))).length ≤ cs.length := by
        have hsplit := congrArg streamText (List.take_append_drop (k + 1) s.chan.taken)
        rw [streamText_append] at hsplit
        rw [hall, ← hsplit, List.length_append]
        exact Nat.le_add_right _ _
      have := hlt h
      omega
    · exact h
  have hsame : got.length = s.chan.taken.length := by
    have := congrArg List.length (hmsgs.symm.trans hcut)
    rw [List.length_map, List.length_map, List.length_take, hlen, Nat.min_self] at this
    exact this
  rw [hgot.eq_of_length hsame, Chan.sent, hbuf, List.append_nil]

/-! ## What the loop makes of a run that is over -/

/-- A run that is over says so, with an event that ends the loop. -/
theorem Served.decisive {t : Task X} (h : Served rn t) {out : Except String String}
    (hc : t.ctl = .finishing out .ended) : Decided t.run.history := by
  have hcourse := h.onCourse.course
  unfold Task.Course at hcourse
  rw [hc] at hcourse
  obtain ⟨ss, _, hhistory⟩ := hcourse
  refine ⟨frameOf (Run.finalEvent out), ?_, ?_⟩
  · rw [hhistory, frames, closing]
    exact List.mem_map.mpr ⟨_, by simp, rfl⟩
  · cases out with
    | error msg => exact .inr (.inr (.inl rfl))
    | ok receiptID =>
        obtain ⟨rec, hput, rfl⟩ := h.onCourse.consistent.outcome _ _ hc
        have hne := h.named.put rec hput
        exact .inr (.inl ⟨rfl, rec.id, if_neg hne, hne⟩)

/-- **At rest**, the page has done what the loop does with all that arrived, if that ends the loop. -/
theorem Stage.Faithful.done {s : Stage} (h : s.Faithful th) {es : List Frame}
    (harr : s.arrived = es.map some) (hend : ∃ e ∈ es, e.Decisive) (hrest : s.AtRest) :
    s.consumer = .returned ∧ s.acts = (th.consume es).1 := by
  have hframes : s.arrived.reduceOption = es := by
    have := reduceOption_frames es []
    rw [List.append_nil] at this
    rw [harr, this]
    exact List.append_nil es
  have hended : (th.consume es).2 = true := by
    rw [← Bool.not_eq_false, Theater.consume_live_iff]
    obtain ⟨e, he, hdecisive⟩ := hend
    exact fun hno => hno e he hdecisive
  have hsplit : es = s.taken ++ s.ch.buf.reduceOption := by
    rw [← hframes, ← h.arrived, AsyncQueue.pushed, List.reduceOption_append]; rfl
  have hstands := h.stands
  rcases hrest with hc | hc
  · -- a consumer that waits has consumed all that arrived
    rw [hc] at hstands
    have htaken := h.taken_of_waiting hc
    have := hstands.2.2
    rw [Stage.taken, htaken, hframes] at this
    rw [this] at hended
    cases hended
  · rw [hc] at hstands
    have := hstands.2.2
    refine ⟨hc, ?_⟩
    rw [hsplit, Theater.consume_append_ended (by rw [this]), this]

/-- What the loop does for a `done`. -/
def Theater.doneActs (th : Theater) (receiptID : String) : List Act :=
  [.close, .card "Proof sealed" "" "Verified independently — opening the verdict.",
    .telemetry "demo.completed" th.telemetryMode "success", .seal, .navigate ("#/r/" ++ receiptID)]

/-- The steps among the events of a narration. -/
theorem stepsOf_narration (ss : List Step) : stepsOf (.state .running :: ss.map .step) = ss := by
  show (ss.map Event.step).filterMap _ = ss
  rw [List.filterMap_map]
  exact List.filterMap_some

/-- **The page of a completed run**: all its stages, then the seal and the receipt. -/
theorem Served.consume_done (th : Theater) {t : Task X} (h : Served rn t) {receiptID : String}
    (hc : t.ctl = .finishing (.ok receiptID) .ended) :
    ∃ ss, Narrates ss ∧
      t.run.history = .state .running :: ss.map .step ++ [.state .complete] ++ [.done receiptID] ∧
      th.consume (frames t.run.history) = (ss.flatMap th.stageActs ++ th.doneActs receiptID, true) := by
  have hcourse := h.onCourse.course
  unfold Task.Course at hcourse
  rw [hc] at hcourse
  obtain ⟨ss, hemits, hhistory⟩ := hcourse
  obtain ⟨rec, hput, hrec⟩ := h.onCourse.consistent.outcome _ _ hc
  have hne : receiptID ≠ "" := hrec ▸ h.named.put rec hput
  have hnarrates : Narrates ss := by
    cases hemits with
    | narrated hp => exact narrates_narration _
  have hsplit : t.run.history = .state .running :: ss.map .step ++ [.state .complete] ++ [.done receiptID] := by
    rw [hhistory, List.append_assoc]
    rfl
  have hlast : th.consume [frameOf (.state .complete), frameOf (.done receiptID)] = (th.doneActs receiptID, true) := by
    rw [Theater.consume_state]
    simp only [Theater.consume, Theater.react_done th hne]
    rfl
  have hconsume := Theater.consume_steps th [frameOf (.state .complete), frameOf (.done receiptID)] ss
    hnarrates.not_failed
  rw [hlast] at hconsume
  refine ⟨ss, hnarrates, hsplit, ?_⟩
  have hframes : frames t.run.history = frameOf (.state .running) :: (frames (ss.map .step) ++
      [frameOf (.state .complete), frameOf (.done receiptID)]) := by
    rw [hsplit]
    simp [frames]
  rw [hframes, Theater.consume_state, hconsume]

theorem shown_stages (th : Theater) (ss : List Step) :
    shown (ss.flatMap th.stageActs) = ss.map fun s => (s.key, s.hash) := by
  induction ss with
  | nil => rfl
  | cons s ss ih => rw [List.flatMap_cons, shown_append, ih]; rfl

theorem Served.consume_complete (th : Theater) {t : Task X} (h : Served rn t) {receiptID : String}
    (hc : t.ctl = .finishing (.ok receiptID) .ended) :
    (th.consume (frames t.run.history)).1.getLast? = some (.navigate ("#/r/" ++ receiptID)) ∧
      shown (th.consume (frames t.run.history)).1 = stagesOf t.run.history := by
  obtain ⟨ss, _, hhistory, hconsume⟩ := h.consume_done th hc
  rw [hconsume]
  refine ⟨List.getLast?_append_of_ne_nil _ (by simp [Theater.doneActs]), ?_⟩
  rw [shown_append, shown_stages, stagesOf, hhistory, stepsOf_append, stepsOf_append, stepsOf_narration]
  simp [shown, completed, Theater.doneActs, stepsOf]

/-- **Getting through.** A run is over and the connection holds: writing what is buffered, letting what is on
    its way arrive and letting the consumer go on bring the page to rest with all that the run has to say. -/
theorem Sound.getsThrough {v : Visit X} (h : Sound rn th id v) (hfed : Fed id v) {c : Connection}
    (hc : v.source = .opened c) (hquiet : some sseError ∉ v.stage.arrived) {t : Task X}
    (hl : v.manager.runs.lookup id = some t) {out : Except String String} (hover : t.ctl = .finishing out .ended) :
    ∃ more v', (∀ a ∈ more, a = .write ∨ a = .arrive ∨ a = .resume) ∧
      exec (Visit.step th id) v more = some v' ∧ v'.stage.consumer = .returned ∧
      v'.stage.acts = (th.consume (frames t.run.history)).1 := by
  obtain ⟨t₀, got, hunbroken⟩ := h.unbroken hc hquiet
  cases Option.some.inj (hl.symm.trans hunbroken.run)
  obtain ⟨u, s, hlu, hsub, hfeeds⟩ := hfed c hc
  cases Option.some.inj (hl.symm.trans hlu)
  obtain ⟨v₁, c₁, t₁, s₁, hwrites, h₁, _, hsub₁, hempty, hsent, _⟩ := hunbroken.writes _ hsub rfl
  obtain ⟨v₂, c₂, got₂, harrives, h₂, htext, hsame⟩ := h₁.arrives _ rfl
  -- all of the history has arrived
  have hgot : got₂ = t.run.history := by
    rw [h₂.carries.all htext (hsame ▸ hsub₁) hempty, hsent, hfeeds.sent]
  obtain ⟨n, stage, hrests, harr, hrest⟩ := Stage.rests th _ v₂.stage le_rfl
  obtain ⟨v₃, hresumes, hstage, _⟩ := resumes n hrests
  have hall : exec (Visit.step th id) v (List.replicate s.chan.buf.length .write ++
      (List.replicate c₁.text.length .arrive ++ List.replicate n .resume)) = some v₃ :=
    exec_append_iff.mpr ⟨v₁, hwrites, exec_append_iff.mpr ⟨v₂, harrives, hresumes⟩⟩
  have hsound : Sound rn th id v₃ :=
    exec_invariant (fun _ _ _ hi hs => hi.step (visit_step hs)) _ h hall
  have harrived : v₃.stage.arrived = (frames t.run.history).map some := by
    rw [hstage, harr, h₂.arrived, hgot]
  obtain ⟨hreturned, hacts⟩ := hsound.stage.done harrived
    ((h.backed.runs.runs id t hl).decisive hover) (hstage ▸ hrest)
  refine ⟨_, v₃, ?_, hall, hreturned, hacts⟩
  intro a ha
  rcases List.mem_append.mp ha with ha | ha
  · exact .inl (List.eq_of_mem_replicate ha)
  · rcases List.mem_append.mp ha with ha | ha
    · exact .inr (.inl (List.eq_of_mem_replicate ha))
    · exact .inr (.inr (List.eq_of_mem_replicate ha))

/-- The page of a failed run. -/
theorem Served.consume_failed (th : Theater) {t : Task X} (h : Served rn t) {msg : String}
    (hc : t.ctl = .finishing (.error msg) .ended) :
    (th.consume (frames t.run.history)).1.getLast? = some (.failRun (some msg)) ∨
      (th.consume (frames t.run.history)).1.getLast? = some (.failRun (some (th.stageFailed runFailedStep))) := by
  have hcourse := h.onCourse.course
  unfold Task.Course at hcourse
  rw [hc] at hcourse
  obtain ⟨ss, hemits, hhistory⟩ := hcourse
  have hne : msg ≠ "" := h.onCourse.consistent.outcome _ _ hc
  have hreports : (∀ s ∈ ss, s.status ≠ .failed) →
      (th.consume (frames t.run.history)).1.getLast? = some (.failRun (some msg)) := by
    intro hok
    have hreports := (th.reports_of_steps hok hne []).2.1
    rw [List.append_nil] at hreports
    rw [hhistory]
    exact hreports
  cases hemits with
  | refused hm => exact .inl (hreports fun s hs => absurd hs List.not_mem_nil)
  | callFailed hm hp => exact .inr (by rw [hhistory]; rfl)
  | narrated hp =>
      refine .inl (hreports fun s hs => ?_)
      obtain ⟨s', _, rfl⟩ := List.mem_map.mp hs
      nofun

/-- **A connection that holds brings the whole run.** The visitor's handler subscribed in time and no error has
    reached the page. Once the run is over, the handler, the network and the page can go on, with nothing else
    done by the server, until the consumer has returned, and the page has then done what the loop does with the
    run's whole history: it has shown every stage and leaves for the run's receipt if the run is complete, and
    says why if it failed. -/
theorem visit_completes {C : RunCodec X} {os : Disk} {dir : String} {files : FilePath.Files C.Data}
    {store : ReceiptStore X} (hopen : newReceiptStore C os dir files = .ok store) (rn : Runner X)
    {before : List ManagerAction} {m : RunManager X}
    (hm : exec RunManager.step (newRunManager rn store) before = some m) (th : Theater) {id : String}
    {as : List VisitAction} {v : Visit X} (hv : exec (Visit.step th id) (.start m) as = some v)
    (hintime : Meets (Visit.step th id) (InTime id) (.start m) as) {c : Connection}
    (hc : v.source = .opened c) (hquiet : some sseError ∉ v.stage.arrived) {t : Task X}
    (hl : v.manager.runs.lookup id = some t) (hover : t.ctl.isEnded = true) :
    ∃ more v', (∀ a ∈ more, a = .write ∨ a = .arrive ∨ a = .resume) ∧
      exec (Visit.step th id) v more = some v' ∧ v'.stage.consumer = .returned ∧
      v'.stage.acts = (th.consume (frames t.run.history)).1 ∧
      (t.run.state = .complete → shown v'.stage.acts = stagesOf t.run.history ∧
        v'.stage.acts.getLast? = some (.navigate ("#/r/" ++ t.run.receiptID))) ∧
      (t.run.state = .failed → v'.stage.acts.getLast? = some (.failRun (some t.run.errMsg)) ∨
        v'.stage.acts.getLast? = some (.failRun (some (th.stageFailed runFailedStep)))) := by
  have hbacked := backed_exec hopen rn hm
  have h := sound_exec hbacked th hv
  obtain ⟨out, hctl⟩ := Ctl.isEnded_iff.mp hover
  obtain ⟨more, v', hmore, hrun, hreturned, hacts⟩ :=
    h.getsThrough (fed_exec hbacked hintime hv) hc hquiet hl hctl
  have hserved := h.backed.runs.runs id t hl
  have hcons := hserved.onCourse.consistent
  refine ⟨more, v', hmore, hrun, hreturned, hacts, ?_, ?_⟩
  · intro hstate
    cases out with
    | error msg => rw [hcons.state, hctl] at hstate; cases hstate
    | ok receiptID =>
        obtain ⟨hlast, hshown⟩ := hserved.consume_complete th hctl
        have hid : t.run.receiptID = receiptID := by rw [hcons.receiptID, hctl]; rfl
        exact ⟨by rw [hacts, hshown], by rw [hacts, hlast, hid]⟩
  · intro hstate
    cases out with
    | ok receiptID => rw [hcons.state, hctl] at hstate; cases hstate
    | error msg =>
        have hmsg : t.run.errMsg = msg := by rw [hcons.errMsg, hctl]; rfl
        rw [hacts, hmsg]
        exact hserved.consume_failed th hctl

/-- A visitor that comes when the run is over. -/
theorem visit_completes_sample : ∃ m v more v' t,
    exec RunManager.step (newRunManager sampleNode { dir := "", runs := ∅ }) endedActions = some m ∧
    exec (Visit.step sampleTheater "run-1") (.start m) [.connect] = some v ∧
    exec (Visit.step sampleTheater "run-1") v more = some v' ∧ v.manager.runs.lookup "run-1" = some t ∧
    v'.stage.acts.getLast? = some (.navigate ("#/r/" ++ t.run.receiptID)) := by
  have hrun : (exec RunManager.step (newRunManager sampleNode { dir := "", runs := ∅ }) endedActions).map
      (fun m => (m.runs.lookup "run-1").map fun t => (t.run.state, t.ctl.isEnded))
        = some (some (.complete, true)) := by decide +kernel
  obtain ⟨m, hm, hlookup⟩ := Option.map_eq_some_iff.mp hrun
  obtain ⟨t, hl, hpair⟩ := Option.map_eq_some_iff.mp hlookup
  obtain ⟨hstate, hended⟩ := Prod.mk.inj hpair
  -- the handler finds the run and subscribes
  let v : Visit sampleX :=
    { manager := { m with runs := m.runs.insert "run-1" { t with run := t.run.subscribe } }
      source := .opened { sub := t.run.subs.length, text := [], parser := .start }, stage := .start }
  have hconnect : (Visit.start m).step sampleTheater "run-1" .connect = some v := by
    have hsubscribe : m.step (.run "run-1" .subscribe) = some v.manager := by
      simp only [RunManager.step, hl, RunManager.possible, Task.step]
      rfl
    simp only [Visit.step, Visit.start, hl, hsubscribe, Option.map_some]
    rfl
  have hv : exec (Visit.step sampleTheater "run-1") (.start m) [.connect] = some v :=
    exec_cons_iff.mpr ⟨v, hconnect, rfl⟩
  have hintime : Meets (Visit.step sampleTheater "run-1") (InTime "run-1") (.start m) [.connect] := by
    refine ⟨fun _ u hu out hgap => ?_, fun _ _ => trivial⟩
    cases Option.some.inj (hl.symm.trans hu)
    rw [hgap] at hended
    cases hended
  have hlater : v.manager.runs.lookup "run-1" = some { t with run := t.run.subscribe } := AList.lookup_insert _
  have hopen : newReceiptStore (sampleCodec sampleX) .ok "" ∅ = .ok { dir := "", runs := ∅ } := rfl
  obtain ⟨more, v', _, hmore, _, _, hcomplete, _⟩ := visit_completes hopen sampleNode hm sampleTheater hv hintime
    rfl (by exact List.not_mem_nil) hlater hended
  obtain ⟨_, hlast⟩ := hcomplete (by
    obtain ⟨_, heq⟩ := t.run.subscribe_eq
    show t.run.subscribe.state = .complete
    rw [heq]
    exact hstate)
  exact ⟨m, v, more, v', _, hm, hv, hmore, hlater, hlast⟩

end Web
end InfrixPlayground
