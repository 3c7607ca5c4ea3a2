import InfrixPlayground.Web.Completion

/-!
# `Web.Truthful` — what the page of a run says

Whatever interleaves, the page shows the run's own stages, leaves for the run's own record and blames the run
only for what it says itself. That the connection was lost is said when it was lost before the run's end had
arrived; a stream that ends by itself has brought that end, unless its handler subscribed in the gap.
-/

namespace InfrixPlayground
namespace Web

open Api Worker Machine EventStream

variable {X : Externals} {rn : Runner X} {th : Theater} {id : String}

/-- The handler has subscribed in the gap: the run had its final state and had not published its last event. -/
def JoinsInGap (th : Theater) (id : String) (m : RunManager X) (as : List VisitAction) : Prop :=
  ∃ before after v t out, as = before ++ .connect :: after ∧ exec (Visit.step th id) (.start m) before = some v ∧
    v.manager.runs.lookup id = some t ∧ t.ctl = .finishing out .publish

/-- A visit that never joins in the gap comes in time, each time it connects. -/
theorem inTime_of_not_joinsInGap {m : RunManager X} {as : List VisitAction} (h : ¬ JoinsInGap th id m as) :
    Meets (Visit.step th id) (InTime id) (.start m) as :=
  meets_of_exec fun before _ after v has hv ha t hl out hctl =>
    h ⟨before, after, v, t, out, by rw [has, ha], hv, hl, hctl⟩

/-- **A stream that ends by itself** and missed nothing has brought the run's last event. -/
theorem Sound.decided_atEnd {v : Visit X} (h : Sound rn th id v) (hfed : Fed id v) (hend : v.AtEnd id)
    {got : List Event} (hair : OnAir v.manager id got v.source) : Decided got := by
  obtain ⟨c, t, s, hc, htext, hl, hsub, hclosed, hbuf⟩ := hend
  rw [hc] at hair
  obtain ⟨t', hl', hcarries⟩ := hair
  cases Option.some.inj (hl.symm.trans hl')
  obtain ⟨u, s', hlu, hsub', hfeeds⟩ := hfed c hc
  cases Option.some.inj (hl.symm.trans hlu)
  cases Option.some.inj (hsub.symm.trans hsub')
  have hserved := h.backed.runs.runs id t hl
  -- a registered channel is open, so the run is over
  have hended : t.ctl.isEnded = true := hfeeds.goesOn.resolve_left fun hreg => by
    have hopen := (hserved.delivers.lossless.subs s (List.mem_of_getElem? hsub)).isOpen hreg
    exact absurd (hopen.symm.trans hclosed) Bool.false_ne_true
  obtain ⟨out, hctl⟩ := Ctl.isEnded_iff.mp hended
  rw [hcarries.all htext hsub hbuf, hfeeds.sent]
  exact hserved.decisive hctl

/-- **A visit that nothing disturbs** hears of an error only when all is decided. -/
theorem heard_undisturbed {m : RunManager X} (hm : Backed rn m) {as : List VisitAction} {v : Visit X}
    (hbreaks : ∀ a ∈ as, a.Breaks = false) (hgap : ¬ JoinsInGap th id m as)
    (hv : exec (Visit.step th id) (.start m) as = some v) : v.Heard Decided id := by
  have hmeets : Meets (Visit.step th id) (fun v a => InTime id v a ∧ a.Breaks = false) (.start m) as :=
    meets_and (inTime_of_not_joinsInGap hgap) (meets_of_forall (fun a ha _ => hbreaks a ha) _)
  have h : (Sound rn th id v ∧ Fed id v) ∧ v.Heard Decided id := by
    refine exec_guarded (P := fun v => (Sound rn th id v ∧ Fed id v) ∧ v.Heard Decided id) ?_ as
      ⟨⟨sound_start hm th id, fun c hc => by cases hc⟩, heard_start _ id m⟩ hmeets hv
    intro v a v' hi hok hs
    have hs := visit_step hs
    refine ⟨⟨hi.1.1.step hs, hi.1.2.step hi.1.1.backed hok.1 hs⟩, hi.2.step hi.1.1 ?_ hs⟩
    intro hlost got hair
    rcases hlost with hbreak | hend
    · exact absurd (hbreak.symm.trans hok.2) (by decide)
    · exact hi.1.1.decided_atEnd hi.1.2 hend hair
  exact h.2

/-- **The run is blamed** only for what it says itself. -/
theorem Sound.blames {v : Visit X} (h : Sound rn th id v) {e : Event} (he : e ∈ historyOf v.manager id)
    {msg : Option String} (ha : .failRun msg ∈ (th.react (frameOf e)).acts) :
    ∃ t, v.manager.runs.lookup id = some t ∧ t.run.state ≠ .complete ∧
      ((t.run.state = .failed ∧ msg = some t.run.errMsg) ∨
        ∃ st ∈ t.run.steps, st.status = .failed ∧ msg = some (th.stageFailed st)) := by
  obtain ⟨t, hl, hmem⟩ := mem_historyOf he
  have hserved := h.backed.runs.runs id t hl
  refine ⟨t, hl, ?_⟩
  rcases failRun_of_event ha with ⟨st, rfl, hstatus, rfl⟩ | ⟨text, rfl, rfl⟩
  · refine ⟨hserved.onCourse.not_complete hmem hstatus, .inr ⟨st, ?_, hstatus, rfl⟩⟩
    rw [hserved.onCourse.steps]
    exact List.mem_filterMap.mpr ⟨_, hmem, rfl⟩
  · obtain ⟨hstate, herr, hne⟩ := h.backed.failed hl hmem
    refine ⟨by rw [hstate]; decide, .inl ⟨hstate, ?_⟩⟩
    rw [herr]
    exact if_neg hne

/-- **The page of a run is truthful.** A server opens its store and runs, and at some moment a visitor's page
    opens the event stream of a run. However the server, the network and the page go on from there, the stages
    the page shows as complete are the run's own, in their order and with their hashes. It leaves for a receipt
    only if the run is complete and its own `Put` returned the record of that id, which the store has served
    since unless a `Cleanup` has removed it or another run has put a record under its id. And if it says that
    the run did not complete, the reason is the run's own and the run is not complete; or it says that the
    connection was lost, an error did reach it before any event that decides the run, and there was a break, or
    the handler had subscribed in the gap. -/
theorem visit_truthful {C : RunCodec X} {os : Disk} {dir : String} {files : FilePath.Files C.Data}
    {store : ReceiptStore X} (hopen : newReceiptStore C os dir files = .ok store) (rn : Runner X)
    {before : List ManagerAction} {m : RunManager X}
    (hm : exec RunManager.step (newRunManager rn store) before = some m) (th : Theater) {id : String}
    {as : List VisitAction} {v : Visit X} (hv : exec (Visit.step th id) (.start m) as = some v) :
    shown v.stage.acts <+: stagesOf (historyOf v.manager id) ∧
    (∀ hash, .navigate hash ∈ v.stage.acts → ∃ t rec early since, v.manager.runs.lookup id = some t ∧
      t.run.state = .complete ∧ t.put = some rec ∧ rec.id ≠ "" ∧ hash = "#/r/" ++ rec.id ∧
      v.manager.log = early ++ .inserted id rec :: since ∧ Retained v.manager.store id rec since) ∧
    (∀ msg, .failRun msg ∈ v.stage.acts →
      (∃ t, v.manager.runs.lookup id = some t ∧ t.run.state ≠ .complete ∧
        ((t.run.state = .failed ∧ msg = some t.run.errMsg) ∨
          ∃ st ∈ t.run.steps, st.status = .failed ∧ msg = some (th.stageFailed st))) ∨
      msg = some Theater.connectionLost ∧
        (∃ got more, got <+: historyOf v.manager id ∧ ¬ Decided got ∧
          v.stage.arrived = (frames got).map some ++ some sseError :: more) ∧
        ((∃ a ∈ as, a.Breaks = true) ∨ JoinsInGap th id m as)) := by
  have hbacked := backed_exec hopen rn hm
  have h := sound_exec hbacked th hv
  refine ⟨?_, fun hash hnav => ?_, fun msg hfail => ?_⟩
  · obtain ⟨got, tail, ⟨more, hmore⟩, hacts, htail⟩ := h.heard.told h.stage
    have hnone : shown (th.consume tail).1 = [] := by
      rcases htail with rfl | ⟨rfl, _⟩ <;> rfl
    refine ((shown_mono hacts).trans (shown_consume th tail hnone got)).trans ?_
    rw [← hmore, stagesOf, stagesOf, stepsOf_append, List.map_append]
    exact List.prefix_append ..
  · rcases h.heard.because h.stage hnav with ⟨e, he, ha⟩ | ⟨ha, _⟩
    · obtain ⟨receiptID, rfl, hne, rfl⟩ := navigate_of_event ha
      obtain ⟨t, hl, hmem⟩ := mem_historyOf he
      obtain ⟨hstate, rec, early, since, rfl, hput, hlog, hretained⟩ := h.backed.completed hl hmem
      exact ⟨t, rec, early, since, hl, hstate, hput, hne, rfl, hlog, hretained⟩
    · rw [react_sseError] at ha
      simp [Theater.Reaction.acts] at ha
  · rcases h.heard.because h.stage hfail with ⟨e, he, ha⟩ | ⟨ha, got, more, hpre, _, hundecided, harr⟩
    · exact .inl (h.blames he ha)
    · by_cases hcause : (∃ a ∈ as, a.Breaks = true) ∨ JoinsInGap th id m as
      · rw [react_sseError] at ha
        exact .inr ⟨by simpa [Theater.Reaction.acts] using ha, ⟨got, more, hpre, hundecided, harr⟩, hcause⟩
      · -- an undisturbed visit hears of no error before all is decided
        obtain ⟨hbreaks, hgap⟩ := not_or.mp hcause
        have hundisturbed := heard_undisturbed hbacked
          (fun a ha => Bool.eq_false_iff.mpr fun hb => hbreaks ⟨a, ha, hb⟩) hgap hv
        rcases hundisturbed.because h.stage hfail with ⟨e, he, ha⟩ | ⟨_, got, _, _, hdecided, hno, _⟩
        · exact .inl (h.blames he ha)
        · exact absurd hdecided hno

/-- A visit from before its run is launched to the end: the run completes, its stream is written, arrives and ends
    by itself, and only then does the page go on. -/
def wholeVisit : List VisitAction :=
  [.connect] ++ (sampleActions ++ [RunAction.finish]).map (fun a => .server (.run "run-1" a)) ++
    List.replicate 12 .write ++ List.replicate 1156 .arrive ++ [.ended] ++ List.replicate 31 .resume

theorem visit_truthful_sample : ∃ m v t rec,
    exec RunManager.step (newRunManager sampleNode { dir := "", runs := ∅ })
      [.number modeAnonymous "", .register 0] = some m ∧
    exec (Visit.step sampleTheater "run-1") (.start m) wholeVisit = some v ∧
    v.stage.arrived.length = 13 ∧ .navigate ("#/r/" ++ sampleShareID) ∈ v.stage.acts ∧
    v.manager.runs.lookup "run-1" = some t ∧ t.run.state = .complete ∧ t.put = some rec ∧
    "#/r/" ++ sampleShareID = "#/r/" ++ rec.id := by
  have hrun : (exec RunManager.step (newRunManager sampleNode { dir := "", runs := ∅ })
      [.number modeAnonymous "", .register 0]).map (fun m =>
        (exec (Visit.step sampleTheater "run-1") (.start m) wholeVisit).map fun v =>
          (v.stage.arrived.length, decide (.navigate ("#/r/" ++ sampleShareID) ∈ v.stage.acts)))
      = some (some (13, true)) := by
    decide +kernel
  obtain ⟨m, hm, hvisit⟩ := Option.map_eq_some_iff.mp hrun
  obtain ⟨v, hv, hpair⟩ := Option.map_eq_some_iff.mp hvisit
  obtain ⟨hlen, hmem⟩ := Prod.mk.inj hpair
  have hnav := of_decide_eq_true hmem
  have hopen : newReceiptStore (sampleCodec sampleX) .ok "" ∅ = .ok { dir := "", runs := ∅ } := rfl
  obtain ⟨_, hleaves, _⟩ := visit_truthful hopen sampleNode hm sampleTheater hv
  obtain ⟨t, rec, _, _, hl, hstate, hput, _, hhash, _⟩ := hleaves _ hnav
  exact ⟨m, v, t, rec, hm, hv, hlen, hnav, hl, hstate, hput, hhash⟩

end Web
end InfrixPlayground
