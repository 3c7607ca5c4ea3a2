import InfrixPlayground.Web.Completion

/-!
# `Web.Spine` — the spine that a run assembles

`mountSpine` lays out one node for each stage; `set` changes the node of a key, and `seal` plays the last beat.
Whatever has happened in a visit, the nodes of its page are the run's stages so far, complete and with their
hashes, at most one that is running behind them, and the rest pending; the spine is sealed only over a complete
run (`spine_assembles`).
-/

namespace InfrixPlayground
namespace Web

open Api Worker Machine

variable {X : Externals}

/-! ## The spine -/

/-- A node: what its elements show. -/
structure SpineNode where
  key : String
  label : String
  color : String
  state : String
  hash : String
deriving DecidableEq, Repr

/-- The nodes in the order of the document, and whether the seal has been asked for. -/
structure Spine where
  nodes : List SpineNode
  sealing : Bool
deriving DecidableEq, Repr

/-- `RUN_SHORT_LABEL`. -/
def runShortLabel : List (String × String) :=
  [ ("intent", "Intent"), ("plan", "Plan"), ("policy", "Policy"), ("approval", "Approval"),
    ("credential", "Credential"), ("outcome", "Outcome"), ("anchor", "Anchored"), ("export", "Exported"),
    ("verify", "Verified") ]

/-- The label of a node. -/
def shortLabel (key label : String) : String := Theater.orElse (runShortLabel.lookup key) label

/-- A change of the node that a key stands for: of several, the last one mounted. -/
def setLast (key : String) (f : SpineNode → SpineNode) : List SpineNode → List SpineNode
  | [] => []
  | n :: ns => if n.key = key ∧ key ∉ ns.map SpineNode.key then f n :: ns else n :: setLast key f ns

namespace Spine

/-- `mountSpine`, for stages with their labels. -/
def mount (colour : String → String) (steps : List (String × String)) : Spine :=
  { nodes := steps.map fun s =>
      { key := s.1, label := shortLabel s.1 s.2, color := colour s.1, state := "pending", hash := "" }
    sealing := false }

/-- `spine.set`: an empty hash is none. -/
def set (key state hash : String) (sp : Spine) : Spine :=
  { sp with
    nodes := setLast key (fun n => { n with state, hash := if hash = "" then n.hash else hash }) sp.nodes }

/-- What an act does to the spine. -/
def act (sp : Spine) : Act → Spine
  | .spine key state hash => sp.set key state hash
  | .seal => { sp with sealing := true }
  | _ => sp

end Spine

/-- The spine of a page, after all it has been told. -/
def spineOf (colour : String → String) (th : Theater) (acts : List Act) : Spine :=
  acts.foldl Spine.act (.mount colour th.steps)

/-! ## Nodes and keys -/

/-- A key without a node. -/
theorem setLast_absent {key : String} (f : SpineNode → SpineNode) : ∀ {ns : List SpineNode},
    key ∉ ns.map SpineNode.key → setLast key f ns = ns := by
  intro ns
  induction ns with
  | nil => intro _; rfl
  | cons n ns ih =>
      intro h
      rw [List.map_cons, List.mem_cons, not_or] at h
      rw [setLast, if_neg fun hn => h.1 hn.1.symm, ih h.2]

/-- The node of a key. -/
theorem setLast_at {n : SpineNode} (f : SpineNode → SpineNode) {after : List SpineNode}
    (h : n.key ∉ after.map SpineNode.key) : ∀ before : List SpineNode,
    setLast n.key f (before ++ n :: after) = before ++ f n :: after := by
  intro before
  induction before with
  | nil => exact if_pos ⟨rfl, h⟩
  | cons b before ih =>
      rw [List.cons_append, setLast, if_neg, ih]
      · rfl
      · rintro ⟨_, hno⟩
        exact hno (by simp)

/-! ## What the acts say about the spine -/

/-- A call of `set`. -/
structure Mark where
  key : String
  state : String
  hash : String
deriving DecidableEq

def markOf : Act → Option Mark
  | .spine key state hash => some ⟨key, state, hash⟩
  | _ => none

/-- The calls of `set`, in order. -/
def marksOf (acts : List Act) : List Mark := acts.filterMap markOf

theorem marksOf_append (acts more : List Act) : marksOf (acts ++ more) = marksOf acts ++ marksOf more :=
  List.filterMap_append ..

def mark (nodes : List SpineNode) (k : Mark) : List SpineNode :=
  setLast k.key (fun n => { n with state := k.state, hash := if k.hash = "" then n.hash else k.hash }) nodes

/-- Only the calls of `set` matter to the nodes. -/
theorem nodes_foldl (acts : List Act) (sp : Spine) :
    (acts.foldl Spine.act sp).nodes = (marksOf acts).foldl mark sp.nodes := by
  induction acts generalizing sp with
  | nil => rfl
  | cons a acts ih =>
      rw [List.foldl_cons, ih]
      cases a <;> rfl

theorem sealing_foldl (acts : List Act) (sp : Spine) :
    (acts.foldl Spine.act sp).sealing = true ↔ sp.sealing = true ∨ .seal ∈ acts := by
  induction acts generalizing sp with
  | nil => simp
  | cons a acts ih =>
      rw [List.foldl_cons, ih, List.mem_cons]
      cases a <;> simp [Spine.act, Spine.set]

/-- What a stage marks. -/
def stepMarks (s : Step) : List Mark :=
  if s.status = .failed then [⟨s.key, "failed", ""⟩]
  else [⟨s.key, "running", ""⟩, ⟨s.key, "complete", s.hash⟩]

/-- **The marks of a page are those of the history**, in its order. -/
theorem marks_consume (th : Theater) (tail : List Frame) (htail : marksOf (th.consume tail).1 = []) :
    ∀ history : List Event,
      marksOf (th.consume (frames history ++ tail)).1 <+: (stepsOf history).flatMap stepMarks := by
  intro history
  induction history with
  | nil =>
      show marksOf (th.consume tail).1 <+: _
      rw [htail]
      exact List.nil_prefix
  | cons e history ih =>
      show marksOf (th.consume (frameOf e :: (frames history ++ tail))).1 <+: _
      cases e with
      | state next => exact ih
      | step st =>
          have hreact := th.react_step st
          show _ <+: stepMarks st ++ (stepsOf history).flatMap stepMarks
          by_cases hf : st.status = .failed
          · rw [if_pos hf] at hreact
            simp only [Theater.consume, hreact, stepMarks, if_pos hf]
            exact List.prefix_append ([⟨st.key, "failed", ""⟩] : List Mark) _
          · rw [if_neg hf] at hreact
            simp only [Theater.consume, hreact, marksOf_append, stepMarks, if_neg hf]
            exact (List.prefix_append_right_inj
              ([⟨st.key, "running", ""⟩, ⟨st.key, "complete", st.hash⟩] : List Mark)).mpr ih
      | done id =>
          by_cases hid : id = ""
          · subst hid; exact ih
          · simp only [Theater.consume, Theater.react_done th hid]
            exact List.nil_prefix
      | error msg =>
          show marksOf (th.errorActs msg) <+: _
          exact List.nil_prefix

/-! ## Assembling -/

/-- The node of a stage. -/
def stageNode (colour : String → String) (state : String) (s : Step) (hash : String) : SpineNode :=
  { key := s.key, label := shortLabel s.key s.label, color := colour s.key, state, hash }

def pendingNode (colour : String → String) (s : Step) : SpineNode := stageNode colour "pending" s ""
def runningNode (colour : String → String) (s : Step) : SpineNode := stageNode colour "running" s ""
def completeNode (colour : String → String) (s : Step) : SpineNode := stageNode colour "complete" s s.hash

/-- The nodes of a spine that some steps have assembled: the stages done are complete, the next may be running,
    and those behind are pending. -/
inductive Assembled (colour : String → String) (steps : List Step) : List SpineNode → Prop where
  | paused {done todo : List Step} (hdone : done <+: steps) (htodo : flowSteps.drop done.length = todo) :
      Assembled colour steps (done.map (completeNode colour) ++ todo.map (pendingNode colour))
  | running {done todo : List Step} {s next : Step} (hdone : done ++ [s] <+: steps)
      (htodo : flowSteps.drop done.length = next :: todo) (hkey : s.key = next.key) :
      Assembled colour steps
        (done.map (completeNode colour) ++ runningNode colour next :: todo.map (pendingNode colour))

theorem assembled_mount (colour : String → String) (steps : List Step) :
    Assembled colour steps (flowSteps.map (pendingNode colour)) := by
  show Assembled colour steps (([] : List Step).map (completeNode colour) ++ flowSteps.map (pendingNode colour))
  exact .paused List.nil_prefix rfl

theorem map_key {f : Step → SpineNode} (hf : ∀ s, (f s).key = s.key)
    (ss : List Step) : (ss.map f).map SpineNode.key = ss.map Step.key := by
  rw [List.map_map]
  exact List.map_congr_left fun s _ => hf s

/-- A stage begins. -/
theorem mark_running (colour : String → String) {s next : Step} (hkey : s.key = next.key) {todo : List Step}
    (hfresh : next.key ∉ todo.map Step.key) (before : List SpineNode) :
    mark (before ++ (next :: todo).map (pendingNode colour)) ⟨s.key, "running", ""⟩
      = before ++ runningNode colour next :: todo.map (pendingNode colour) := by
  have hfresh' : next.key ∉ (todo.map (pendingNode colour)).map SpineNode.key := by
    rw [map_key fun _ => rfl]
    exact hfresh
  rw [hkey]
  exact setLast_at (n := pendingNode colour next) _ hfresh' _

/-- It is complete. -/
theorem mark_complete (colour : String → String) {s next : Step} (hkey : s.key = next.key)
    (hlabel : s.label = next.label) {todo : List Step} (hfresh : next.key ∉ todo.map Step.key) (done : List Step) :
    mark (done.map (completeNode colour) ++ runningNode colour next :: todo.map (pendingNode colour))
        ⟨s.key, "complete", s.hash⟩
      = (done ++ [s]).map (completeNode colour) ++ todo.map (pendingNode colour) := by
  have hfresh' : next.key ∉ (todo.map (pendingNode colour)).map SpineNode.key := by
    rw [map_key fun _ => rfl]
    exact hfresh
  have hnode : completeNode colour s = { runningNode colour next with
      state := "complete", hash := if s.hash = "" then "" else s.hash } := by
    have hhash : (if s.hash = "" then "" else s.hash) = s.hash := by
      split
      · rename_i h; exact h.symm
      · rfl
    rw [hhash]
    unfold completeNode runningNode stageNode
    rw [hkey, hlabel]
  rw [hkey, List.map_append, List.append_assoc, List.map_singleton, hnode]
  exact setLast_at (n := runningNode colour next) _ hfresh' _

/-- **One stage after the other.** A beginning of the marks of some stages, over a spine on which the stages
    before them are complete and these pending. -/
theorem assembled_foldl (colour : String → String) {steps : List Step} : ∀ {todo rest done : List Step}
    {marks : List Mark}, (todo.map Step.key).Nodup → done ++ rest <+: steps →
    flowSteps.drop done.length = todo → (∀ s ∈ rest, s.status ≠ .failed) →
    rest.map (fun s => (s.key, s.label)) <+: todo.map (fun s => (s.key, s.label)) →
    marks <+: rest.flatMap stepMarks →
    Assembled colour steps (marks.foldl mark (done.map (completeNode colour) ++ todo.map (pendingNode colour))) := by
  intro todo rest
  induction rest generalizing todo with
  | nil =>
      intro done marks _ hdone htodo _ _ hmarks
      rw [List.prefix_nil.mp hmarks]
      exact .paused ((List.prefix_append done []).trans hdone) htodo
  | cons s rest ih =>
      intro done marks hnodup hdone htodo hok hsame hmarks
      obtain ⟨next, todo, rfl⟩ : ∃ next todo', todo = next :: todo' := by
        cases todo with
        | nil => exact absurd (List.prefix_nil.mp hsame) (by simp)
        | cons next todo => exact ⟨next, todo, rfl⟩
      rw [List.map_cons, List.map_cons, List.cons_prefix_cons, Prod.mk.injEq] at hsame
      obtain ⟨⟨hkey, hlabel⟩, hsame⟩ := hsame
      rw [List.map_cons, List.nodup_cons] at hnodup
      have hmark : stepMarks s = [⟨s.key, "running", ""⟩, ⟨s.key, "complete", s.hash⟩] :=
        if_neg (hok s List.mem_cons_self)
      rw [List.flatMap_cons, hmark, List.cons_append, List.cons_append, List.nil_append] at hmarks
      -- before its first mark, between the two, or past the second
      rcases List.prefix_cons_iff.mp hmarks with rfl | ⟨marks₁, rfl, hmarks₁⟩
      · exact .paused ((List.prefix_append done (s :: rest)).trans hdone) htodo
      have hdone' : (done ++ [s]) ++ rest <+: steps := by rwa [List.append_assoc]
      rw [List.foldl_cons, mark_running colour hkey hnodup.1]
      rcases List.prefix_cons_iff.mp hmarks₁ with rfl | ⟨marks₂, rfl, hmarks₂⟩
      · exact .running ((List.prefix_append (done ++ [s]) rest).trans hdone') htodo hkey
      rw [List.foldl_cons, mark_complete colour hkey hlabel hnodup.1]
      refine ih hnodup.2 hdone' ?_ (fun s' hs' => hok s' (List.mem_cons_of_mem s hs')) hsame hmarks₂
      rw [List.length_append, List.length_singleton, ← List.drop_drop, htodo]
      rfl

/-- **All the stages**, one after the other. -/
theorem complete_foldl (colour : String → String) : ∀ {todo rest done : List Step},
    (todo.map Step.key).Nodup → (∀ s ∈ rest, s.status ≠ .failed) →
    rest.map (fun s => (s.key, s.label)) = todo.map (fun s => (s.key, s.label)) →
    (rest.flatMap stepMarks).foldl mark (done.map (completeNode colour) ++ todo.map (pendingNode colour))
      = (done ++ rest).map (completeNode colour) := by
  intro todo rest
  induction rest generalizing todo with
  | nil =>
      intro done _ _ hsame
      have htodo : todo = [] := List.map_eq_nil_iff.mp hsame.symm
      rw [htodo, List.append_nil]
      exact List.append_nil _
  | cons s rest ih =>
      intro done hnodup hok hsame
      obtain ⟨next, todo, rfl⟩ : ∃ next todo', todo = next :: todo' := by
        cases todo with
        | nil => cases hsame
        | cons next todo => exact ⟨next, todo, rfl⟩
      rw [List.map_cons, List.map_cons, List.cons.injEq, Prod.mk.injEq] at hsame
      obtain ⟨⟨hkey, hlabel⟩, hsame⟩ := hsame
      rw [List.map_cons, List.nodup_cons] at hnodup
      have hmark : stepMarks s = [⟨s.key, "running", ""⟩, ⟨s.key, "complete", s.hash⟩] :=
        if_neg (hok s List.mem_cons_self)
      rw [List.flatMap_cons, hmark, List.cons_append, List.cons_append, List.nil_append, List.foldl_cons,
        mark_running colour hkey hnodup.1, List.foldl_cons, mark_complete colour hkey hlabel hnodup.1,
        ih hnodup.2 (fun s' hs' => hok s' (List.mem_cons_of_mem s hs')) hsame, List.append_assoc]
      rfl

/-! ## The spine of a run -/

/-- What the steps of a history can be. -/
theorem steps_of_protocol {history : List Event} (h : Protocol history) :
    stepsOf history = [] ∨ stepsOf history = [runFailedStep] ∨ Narrates (stepsOf history) := by
  cases h with
  | refused msg => exact .inl rfl
  | callFailed msg => exact .inr (.inl rfl)
  | failedLate hs msg =>
      refine .inr (.inr ?_)
      rw [stepsOf_append, stepsOf_narration]
      exact (List.append_nil _).symm ▸ hs
  | completed hs receiptID =>
      refine .inr (.inr ?_)
      rw [stepsOf_append, stepsOf_narration]
      exact (List.append_nil _).symm ▸ hs

theorem flowSteps_nodup : (flowSteps.map Step.key).Nodup := by decide

theorem labels_of_narrates {ss : List Step} (h : Narrates ss) :
    ss.map (fun s => (s.key, s.label)) = flowSteps.map fun s => (s.key, s.label) := by
  have hmap := congrArg (List.map fun k : String × String × StepStatus => (k.1, k.2.1)) h
  rw [List.map_map, List.map_map] at hmap
  exact hmap

/-- What a page can show of a history that is part of a protocol. -/
theorem assembled_of_protocol (colour : String → String) {history whole : List Event} (hw : Protocol whole)
    (hpre : history <+: whole) {marks : List Mark} (hmarks : marks <+: (stepsOf history).flatMap stepMarks) :
    Assembled colour (stepsOf history) (marks.foldl mark (flowSteps.map (pendingNode colour))) := by
  have hsteps : stepsOf history <+: stepsOf whole := hpre.filterMap _
  have hnone : stepsOf history = [] ∨ stepsOf history = [runFailedStep] →
      marks.foldl mark (flowSteps.map (pendingNode colour)) = flowSteps.map (pendingNode colour) := by
    rintro (hnil | hfailed)
    · rw [hnil] at hmarks
      rw [List.prefix_nil.mp hmarks]
      rfl
    · -- a stage that is none of the nodes'
      rw [hfailed] at hmarks
      rcases List.prefix_cons_iff.mp hmarks with rfl | ⟨marks', rfl, hmarks'⟩
      · rfl
      · rw [List.prefix_nil.mp hmarks']
        refine setLast_absent _ ?_
        rw [map_key fun _ => rfl]
        decide
  rcases steps_of_protocol hw with hw | hw | hw
  · rw [hw, List.prefix_nil] at hsteps
    rw [hnone (.inl hsteps)]
    exact assembled_mount colour _
  · rw [hw] at hsteps
    have hcases : stepsOf history = [] ∨ stepsOf history = [runFailedStep] := by
      rcases List.prefix_cons_iff.mp hsteps with h | ⟨rest, h, hrest⟩
      · exact .inl h
      · exact .inr (by rw [h, List.prefix_nil.mp hrest])
    rw [hnone hcases]
    exact assembled_mount colour _
  · have hlabels := hsteps.map fun s : Step => (s.key, s.label)
    rw [labels_of_narrates hw] at hlabels
    have hok : ∀ s ∈ stepsOf history, s.status ≠ .failed := fun s hs => hw.not_failed s (hsteps.mem hs)
    have hnothing : ([] : List Step) ++ stepsOf history <+: stepsOf history := List.prefix_rfl
    exact assembled_foldl colour flowSteps_nodup hnothing rfl hok hlabels hmarks

/-- The seal is asked for only by a `done`. -/
theorem seal_of_event {th : Theater} {e : Event} (h : .seal ∈ (th.react (frameOf e)).acts) : ∃ id, e = .done id := by
  cases e with
  | state next => cases h
  | step st =>
      rw [Theater.react_step] at h
      split at h <;> simp [Theater.Reaction.acts, Theater.swapCard] at h
  | done id => exact ⟨id, rfl⟩
  | error msg =>
      rw [Theater.react_error] at h
      simp [Theater.Reaction.acts, Theater.errorActs] at h

/-- A part of a history that holds its last event, which is nowhere else in it, is all of it. -/
theorem eq_of_last_mem {early got : List Event} {e : Event} (h : got <+: early ++ [e]) (hmem : e ∈ got)
    (hno : e ∉ early) : got = early ++ [e] := by
  rcases List.prefix_concat_iff.mp h with h | h
  · exact h
  · exact absurd (h.mem hmem) hno

theorem marks_stages (th : Theater) {ss : List Step} (hok : ∀ s ∈ ss, s.status ≠ .failed) :
    marksOf (ss.flatMap th.stageActs) = ss.flatMap stepMarks := by
  induction ss with
  | nil => rfl
  | cons s ss ih =>
      rw [List.flatMap_cons, List.flatMap_cons, marksOf_append,
        ih fun s' hs' => hok s' (List.mem_cons_of_mem s hs'), stepMarks, if_neg (hok s List.mem_cons_self)]
      rfl

theorem seal_not_mem_stages (th : Theater) (ss : List Step) : .seal ∉ ss.flatMap th.stageActs := by
  intro h
  obtain ⟨s, _, hs⟩ := List.mem_flatMap.mp h
  simp [Theater.stageActs, Theater.swapCard] at hs

/-- **A page that seals** has marked all the stages of a complete run. -/
theorem Sound.sealed {rn : Runner X} {th : Theater} {id : String} {v : Visit X} (h : Sound rn th id v)
    (hseal : .seal ∈ v.stage.acts) : ∃ t, v.manager.runs.lookup id = some t ∧ t.run.state = .complete ∧
      Narrates t.run.steps ∧ marksOf v.stage.acts = t.run.steps.flatMap stepMarks := by
  obtain ⟨got, tail, hpre, hacts, htail⟩ := h.heard.told h.stage
  obtain ⟨e, he, hea⟩ := th.mem_consume (hacts.mem hseal)
  obtain ⟨receiptID, hdone⟩ : ∃ receiptID, .done receiptID ∈ got := by
    rcases List.mem_append.mp he with he | he
    · obtain ⟨ev, hev, rfl⟩ := List.mem_map.mp he
      obtain ⟨receiptID, rfl⟩ := seal_of_event hea
      exact ⟨receiptID, hev⟩
    · rcases htail with rfl | ⟨rfl, _⟩
      · cases he
      · rw [List.mem_singleton.mp he, react_sseError] at hea
        simp [Theater.Reaction.acts] at hea
  obtain ⟨t, hl, hmem⟩ := mem_historyOf (hpre.mem hdone)
  have hserved := h.backed.runs.runs id t hl
  have hctl : t.ctl = .finishing (.ok receiptID) .ended :=
    hserved.onCourse.over (show Run.finalEvent (.ok receiptID) ∈ _ from hmem)
  obtain ⟨ss, hnarrates, hhistory, hconsume⟩ := hserved.consume_done th hctl
  -- all of the history has arrived, so nothing that came after it matters
  have hgot : got = t.run.history := by
    rw [historyOf_eq hl, hhistory] at hpre
    rw [hhistory]
    refine eq_of_last_mem hpre hdone fun hearly => ?_
    rcases List.mem_append.mp hearly with hearly | hearly
    · rcases List.mem_cons.mp hearly with he | he
      · cases he
      · obtain ⟨s, _, hs⟩ := List.mem_map.mp he
        cases hs
    · cases List.mem_singleton.mp hearly
  rw [hgot, Theater.consume_append_ended (by rw [hconsume]), hconsume] at hacts
  have hsteps : t.run.steps = ss := by
    rw [hserved.onCourse.steps, hhistory, stepsOf_append, stepsOf_append, stepsOf_narration]
    simp [stepsOf]
  refine ⟨t, hl, (h.backed.completed hl hmem).1, hsteps ▸ hnarrates, ?_⟩
  rw [hsteps, ← marks_stages th hnarrates.not_failed]
  rcases List.prefix_or_prefix_of_prefix hacts (List.prefix_append _ (th.doneActs receiptID)) with hshort | ⟨more, hmore⟩
  · exact absurd (hshort.mem hseal) (seal_not_mem_stages th ss)
  · have hlast : more <+: th.doneActs receiptID := by
      rw [← hmore] at hacts
      exact (List.prefix_append_right_inj _).mp hacts
    have hnone : marksOf more = [] := List.prefix_nil.mp (hlast.filterMap markOf)
    rw [← hmore, marksOf_append, hnone, List.append_nil]

/-- **The spine assembles as the run does.** At any moment of any visit, the nodes of the page are the run's
    stages so far, complete and with their hashes, at most one stage that is running behind them, and the rest
    pending; and a page that seals its spine shows all the stages of a complete run. -/
theorem spine_assembles {C : RunCodec X} {os : Disk} {dir : String} {files : FilePath.Files C.Data}
    {store : ReceiptStore X} (hopen : newReceiptStore C os dir files = .ok store) (rn : Runner X)
    {before : List ManagerAction} {m : RunManager X}
    (hm : exec RunManager.step (newRunManager rn store) before = some m) (mode : String) {id : String}
    {as : List VisitAction} {v : Visit X}
    (hv : exec (Visit.step (.new mode flowSteps) id) (.start m) as = some v) (colour : String → String) :
    Assembled colour (stepsOf (historyOf v.manager id)) (spineOf colour (.new mode flowSteps) v.stage.acts).nodes ∧
    ((spineOf colour (.new mode flowSteps) v.stage.acts).sealing = true →
      ∃ t, v.manager.runs.lookup id = some t ∧ t.run.state = .complete ∧
        t.run.steps.map Step.key = flowSteps.map Step.key ∧
        (spineOf colour (.new mode flowSteps) v.stage.acts).nodes = t.run.steps.map (completeNode colour)) := by
  have h := sound_exec (backed_exec hopen rn hm) _ hv
  have hnodes : (spineOf colour (.new mode flowSteps) v.stage.acts).nodes
      = (marksOf v.stage.acts).foldl mark (flowSteps.map (pendingNode colour)) := nodes_foldl _ _
  rw [hnodes]
  constructor
  · obtain ⟨got, tail, ⟨more, hmore⟩, hacts, htail⟩ := h.heard.told h.stage
    have hnone : marksOf ((Theater.new mode flowSteps).consume tail).1 = [] := by
      rcases htail with rfl | ⟨rfl, _⟩ <;> rfl
    have hmarks : marksOf v.stage.acts <+: (stepsOf (historyOf v.manager id)).flatMap stepMarks := by
      refine ((hacts.filterMap markOf).trans (marks_consume _ tail hnone got)).trans ?_
      rw [← hmore, stepsOf_append, List.flatMap_append]
      exact List.prefix_append ..
    cases hl : v.manager.runs.lookup id with
    | none =>
        have hempty : historyOf v.manager id = [] := by rw [historyOf, hl]; rfl
        rw [hempty] at hmarks ⊢
        exact assembled_of_protocol colour (.refused "") List.nil_prefix hmarks
    | some t =>
        obtain ⟨whole, hwhole, hpre⟩ := (h.backed.runs.runs id t hl).onCourse.extends
        rw [historyOf_eq hl] at hmarks ⊢
        exact assembled_of_protocol colour hwhole hpre hmarks
  · intro hsealing
    have hseal : .seal ∈ v.stage.acts :=
      ((sealing_foldl v.stage.acts _).mp hsealing).resolve_left Bool.false_ne_true
    obtain ⟨t, hl, hstate, hnarrates, hmarks⟩ := h.sealed hseal
    have hlabels := labels_of_narrates hnarrates
    have hkeys : t.run.steps.map Step.key = flowSteps.map Step.key := by
      have := congrArg (List.map Prod.fst) hlabels
      rwa [List.map_map, List.map_map] at this
    refine ⟨t, hl, hstate, hkeys, ?_⟩
    have hall : (t.run.steps.flatMap stepMarks).foldl mark
        (([] : List Step).map (completeNode colour) ++ flowSteps.map (pendingNode colour))
          = ([] ++ t.run.steps).map (completeNode colour) :=
      complete_foldl colour flowSteps_nodup hnarrates.not_failed hlabels
    rw [hmarks]
    exact hall

/-- A run up to its first stage. -/
def firstStage : List ManagerAction :=
  [.number modeAnonymous "", .register 0] ++
    ([.count, .launch, .call, .reply (.answered 200 [0x7B, 0x7D]) "2024-01-01T00:00:00Z", .emit]).map (.run "run-1")

/-- Its visit, until the stage is shown as running. -/
def firstVisit : List VisitAction :=
  [.connect, .write, .write] ++ List.replicate 147 .arrive ++ [.resume, .resume]

theorem spine_assembles_sample : ∃ m v,
    exec RunManager.step (newRunManager sampleNode { dir := "", runs := ∅ }) firstStage = some m ∧
    exec (Visit.step sampleTheater "run-1") (.start m) firstVisit = some v ∧
    (spineOf id sampleTheater v.stage.acts).nodes.map SpineNode.state
      = "running" :: List.replicate 8 "pending" ∧
    Assembled id (stepsOf (historyOf v.manager "run-1")) (spineOf id sampleTheater v.stage.acts).nodes := by
  have hrun : (exec RunManager.step (newRunManager sampleNode { dir := "", runs := ∅ }) firstStage).map (fun m =>
      (exec (Visit.step sampleTheater "run-1") (.start m) firstVisit).map fun v =>
        (spineOf id sampleTheater v.stage.acts).nodes.map SpineNode.state)
      = some (some ("running" :: List.replicate 8 "pending")) := by decide +kernel
  obtain ⟨m, hm, hvisit⟩ := Option.map_eq_some_iff.mp hrun
  obtain ⟨v, hv, hstates⟩ := Option.map_eq_some_iff.mp hvisit
  have hopen : newReceiptStore (sampleCodec sampleX) .ok "" ∅ = .ok { dir := "", runs := ∅ } := rfl
  exact ⟨m, v, hm, hv, hstates, (spine_assembles hopen sampleNode hm "anonymous" hv id).1⟩

end Web
end InfrixPlayground
