import Mathlib.Logic.Relation
import InfrixPlayground.Api.RunManager

/-!
# `Api.Snapshots` — what status polls see

A snapshot is read at any moment of a run of the manager. What two of them can show of one run (`Advances`)
is a relation that every step keeps; that a completed run's receipt id leads to a record is an invariant
over the log: whatever was inserted is held by the store until a `Cleanup` that had to remove it did.
-/

namespace InfrixPlayground
namespace Api

open Worker Machine

variable {X : Externals}

/-- One state leads to another along the state machine. -/
def RunState.LeadsTo : RunState → RunState → Prop :=
  Relation.ReflTransGen fun s s' => s.canTransition s' = true

/-- What a later view of a run may show: a state further on, and nothing new once the run is over. -/
structure Advances (r r' : Run) : Prop where
  state : r.state.LeadsTo r'.state
  final : r.state.terminal = true → r'.snapshot = r.snapshot

theorem Advances.refl (r : Run) : Advances r r := ⟨.refl, fun _ => rfl⟩

theorem Advances.trans {r₁ r₂ r₃ : Run} (h : Advances r₁ r₂) (h' : Advances r₂ r₃) :
    Advances r₁ r₃ := by
  refine ⟨h.state.trans h'.state, fun hterm => ?_⟩
  have h12 := h.final hterm
  have hstate : r₂.state = r₁.state := congrArg Snapshot.state h12
  rw [h'.final (by rw [hstate]; exact hterm), h12]

/-- A step that leaves the state of a run that is not over. -/
theorem Advances.of_state {r r' : Run} (hs : r'.state = r.state) (hr : r.state.terminal = false) :
    Advances r r' :=
  ⟨by rw [hs]; exact .refl, fun h => by rw [hr] at h; exact absurd h (by decide)⟩

/-- **One step of a run.** -/
theorem TaskStep.advances {rn : Runner X} {t t' : Task X} {a : RunAction} (h : Consistent t)
    (hs : TaskStep rn t a t') : Advances t.run t'.run := by
  have hstate := h.state
  cases hs with
  | launch hc =>
      rw [hc] at hstate
      have hcan : t.run.state.canTransition .running = true := by rw [hstate]; rfl
      rw [Run.transition_of_can hcan]
      refine ⟨.single hcan, fun hterm => ?_⟩
      rw [hstate] at hterm
      exact absurd hterm Bool.false_ne_true
  | emit hc =>
      rw [hc] at hstate
      exact .of_state rfl (by rw [hstate]; rfl)
  | @setResult out hc =>
      rw [hc] at hstate
      exact .of_state (by cases out <;> rfl) (by rw [hstate]; rfl)
  | @setState out hc =>
      rw [hc] at hstate
      have hcan : t.run.state.canTransition (Run.finalState out) = true := by
        rw [hstate]; exact Run.canTransition_final out
      rw [Run.transition_of_can hcan]
      refine ⟨.single hcan, fun hterm => ?_⟩
      rw [hstate] at hterm
      exact absurd hterm Bool.false_ne_true
  | publish hc => exact ⟨.refl, fun _ => rfl⟩
  | subscribe =>
      obtain ⟨s, heq⟩ := t.run.subscribe_eq
      rw [heq]
      exact ⟨.refl, fun _ => rfl⟩
  | unsub => exact ⟨.refl, fun _ => rfl⟩
  | recv => exact ⟨.refl, fun _ => rfl⟩
  | _ => exact .refl _

/-! ## What was put is held -/

/-- The store holds an entry under the record's id, unless a `Cleanup` since, with a cutoff after the
    entry's creation, has removed it. -/
def Held (store : ReceiptStore X) (rec : StoredRun X) (since : List (LogEntry X)) : Prop :=
  (∃ e, store.get rec.id = some e) ∨
    ∃ cut e, .removed cut e ∈ since ∧ e.id = rec.id ∧ e.createdAt < cut

/-- Every record the log says was inserted is held. -/
def AllHeld (store : ReceiptStore X) : List (LogEntry X) → Prop
  | [] => True
  | .inserted _ rec :: since => Held store rec since ∧ AllHeld store since
  | _ :: since => AllHeld store since

/-- The log grows, and the store with it. -/
theorem AllHeld.append {store store' : ReceiptStore X} {new : List (LogEntry X)}
    (hheld : ∀ rec since, Held store rec since → Held store' rec (since ++ new))
    (hnew : AllHeld store' new) : ∀ log : List (LogEntry X), AllHeld store log →
      AllHeld store' (log ++ new) := by
  intro log
  induction log with
  | nil => intro _; exact hnew
  | cons entry log ih =>
      intro h
      cases entry with
      | inserted id rec => exact ⟨hheld rec log h.1, ih h.2⟩
      | called id call => exact ih h
      | returned id rec => exact ih h
      | removed cut rec => exact ih h

/-- The log and the store both stay as they are, but for entries that insert nothing. -/
theorem AllHeld.quiet {store : ReceiptStore X} {new log : List (LogEntry X)} (h : AllHeld store log)
    (hnew : AllHeld store new) : AllHeld store (log ++ new) := by
  refine AllHeld.append (fun rec since hheld => ?_) hnew log h
  rcases hheld with hget | ⟨cut, e, hmem, hid, hold⟩
  · exact .inl hget
  · exact .inr ⟨cut, e, List.mem_append_left _ hmem, hid, hold⟩

/-- A record the log says was inserted, at its place in the log. -/
theorem AllHeld.of_mem {store : ReceiptStore X} {runID : String} {rec : StoredRun X} :
    ∀ log : List (LogEntry X), AllHeld store log → .inserted runID rec ∈ log →
      ∃ before since, log = before ++ .inserted runID rec :: since ∧ Held store rec since := by
  intro log
  induction log with
  | nil => intro _ h; exact absurd h List.not_mem_nil
  | cons entry log ih =>
      intro h hmem
      rcases List.mem_cons.mp hmem with rfl | hmem
      · exact ⟨[], log, rfl, h.1⟩
      · have htail : AllHeld store log := by
          cases entry with
          | inserted id rec' => exact h.2
          | called id call => exact h
          | returned id rec' => exact h
          | removed cut rec' => exact h
        obtain ⟨before, since, hlog, hheld⟩ := ih htail hmem
        exact ⟨entry :: before, since, by rw [hlog, List.cons_append], hheld⟩

/-- **The invariant of runs and store.** -/
structure Stored (m : RunManager X) : Prop where
  starting : ∀ r ∈ m.starting, ∃ mode flow, r = Run.new r.id mode flow
  consistent : ∀ id t, m.runs.lookup id = some t → Consistent t
  keyed : ∀ id e, m.store.get id = some e → e.id = id
  persisting : ∀ id t rec, m.runs.lookup id = some t → t.ctl = .persisting rec →
    .inserted id rec ∈ m.log
  put : ∀ id t rec, m.runs.lookup id = some t → t.put = some rec →
    .returned id rec ∈ m.log ∧ .inserted id rec ∈ m.log
  held : AllHeld m.store m.log

/-- Whatever the directory holds, a store that was just opened files its runs under their own ids. -/
theorem keyed_newReceiptStore {C : RunCodec X} {os : Disk} {dir : String}
    {files : FilePath.Files C.Data} {store : ReceiptStore X}
    (h : newReceiptStore C os dir files = .ok store) (id : String) (e : StoredRun X)
    (he : store.get id = some e) : e.id = id := by
  unfold newReceiptStore at h
  dsimp only at h
  split at h
  · cases h; simp [ReceiptStore.get] at he
  · split at h
    · cases h
    · unfold ReceiptStore.loadFromDisk at h
      split at h
      · cases h
      · cases h
        -- loading files a run under the id it carries, whatever its file is called
        refine AList.insertAll_forall (P := fun a b => b.id = a) _ ∅ (by simp) ?_ id e he
        intro name a b hload
        unfold loadFile at hload
        split at hload
        · cases hload
        · split at hload
          · split at hload
            · cases hload; rfl
            · cases hload
          · cases hload

theorem stored_new {C : RunCodec X} {os : Disk} {dir : String} {files : FilePath.Files C.Data}
    {store : ReceiptStore X} (runner : Runner X)
    (h : newReceiptStore C os dir files = .ok store) : Stored (newRunManager runner store) := by
  refine ⟨fun _ h => absurd h List.not_mem_nil, ?_, keyed_newReceiptStore h, ?_, ?_, trivial⟩
  all_goals
    intro id t
    rw [lookup_new]
    exact nofun

/-- Replacing one run by a consistent one, while the log grows, keeps the invariant if the log covers the
    new run and the store holds what the log says. -/
theorem Stored.replace {m m' : RunManager X} (h : Stored m) {id : String} {t' : Task X}
    {store' : ReceiptStore X} {new : List (LogEntry X)} (hruns : m'.runs = m.runs.insert id t')
    (hstarting : m'.starting = m.starting) (hstore : m'.store = store') (hlog : m'.log = m.log ++ new)
    (hconsistent : Consistent t') (hkeyed : ∀ id e, store'.get id = some e → e.id = id)
    (hpersisting : ∀ rec, t'.ctl = .persisting rec → .inserted id rec ∈ m.log ++ new)
    (hput : ∀ rec, t'.put = some rec →
      .returned id rec ∈ m.log ++ new ∧ .inserted id rec ∈ m.log ++ new)
    (hheld : AllHeld store' (m.log ++ new)) : Stored m' := by
  refine ⟨by rw [hstarting]; exact h.starting, ?_, by rw [hstore]; exact hkeyed, ?_, ?_,
    by rw [hstore, hlog]; exact hheld⟩
  · intro id' u hu
    rw [hruns] at hu
    rcases lookup_replace hu with ⟨_, rfl⟩ | ⟨_, hu⟩
    · exact hconsistent
    · exact h.consistent id' u hu
  · intro id' u rec hu hc
    rw [hruns] at hu
    rw [hlog]
    rcases lookup_replace hu with ⟨rfl, rfl⟩ | ⟨_, hu⟩
    · exact hpersisting rec hc
    · exact List.mem_append_left _ (h.persisting id' u rec hu hc)
  · intro id' u rec hu hp
    rw [hruns] at hu
    rw [hlog]
    rcases lookup_replace hu with ⟨rfl, rfl⟩ | ⟨_, hu⟩
    · exact hput rec hp
    · have hold := h.put id' u rec hu hp
      exact ⟨List.mem_append_left _ hold.1, List.mem_append_left _ hold.2⟩

/-- An insertion is held at once, and keeps held what was. -/
theorem AllHeld.insert {store : ReceiptStore X} {log : List (LogEntry X)} (h : AllHeld store log)
    (runID : String) (rec : StoredRun X) :
    AllHeld (store.insert rec) (log ++ [.inserted runID rec]) := by
  have hnew : AllHeld (store.insert rec) [.inserted runID rec] :=
    ⟨.inl ⟨rec, by rw [get_insert, if_pos rfl]⟩, trivial⟩
  refine AllHeld.append (fun rec' since hheld => ?_) hnew log h
  rcases hheld with ⟨e, he⟩ | ⟨cut, e, hmem, hid, hold⟩
  · refine .inl ?_
    rw [get_insert]
    split
    · exact ⟨rec, rfl⟩
    · exact ⟨e, he⟩
  · exact .inr ⟨cut, e, List.mem_append_left _ hmem, hid, hold⟩

/-- **A step of a run** keeps the invariant. -/
theorem Stored.run {m : RunManager X} (h : Stored m) {id : String} {a : RunAction} {t t' : Task X}
    (hl : m.runs.lookup id = some t) (hs : TaskStep m.runner t a t') :
    Stored { m.outside id a t.ctl t'.ctl with runs := m.runs.insert id t' } := by
  have hconsistent := (h.consistent id t hl).step hs
  have hstarting := outside_starting m id a t.ctl t'.ctl
  -- a run that had put its record before still has
  have hput : ∀ {new : List (LogEntry X)} rec, t'.put = t.put → t'.put = some rec →
      .returned id rec ∈ m.log ++ new ∧ .inserted id rec ∈ m.log ++ new := by
    intro new rec hsame hp
    have hold := h.put id t rec hl (by rw [← hsame]; exact hp)
    exact ⟨List.mem_append_left _ hold.1, List.mem_append_left _ hold.2⟩
  rcases outside_cases m id hs with ⟨call, hctl, _, _, hstore, hlog, hsame⟩ |
    ⟨rec, hctl, hstore, hlog, hsame, _⟩ | ⟨rec, hctl, hstore, hlog, hsome, hout⟩ |
    ⟨hstore, hlog, hsame, hctl, _⟩
  · -- the node is called
    refine h.replace rfl hstarting hstore hlog hconsistent h.keyed ?_ (fun rec => hput rec hsame)
      (h.held.quiet trivial)
    intro rec hc; rw [hctl] at hc; cases hc
  · -- the run's record goes into the map
    refine h.replace rfl hstarting hstore hlog hconsistent ?_ ?_ (fun rec => hput rec hsame)
      (h.held.insert id rec)
    · intro id' e he
      rw [get_insert] at he
      split at he
      · rename_i hid; cases he; exact hid.symm
      · exact h.keyed id' e he
    · intro rec' hc
      rw [hctl] at hc
      cases hc
      exact List.mem_append_right _ (List.mem_singleton_self _)
  · -- the run's `Put` returns
    refine h.replace rfl hstarting hstore hlog hconsistent h.keyed
      (fun rec' hc => absurd hc (hout rec')) ?_ (h.held.quiet trivial)
    intro rec' hp
    rw [hsome] at hp
    cases hp
    exact ⟨List.mem_append_right _ (List.mem_singleton_self _),
      List.mem_append_left _ (h.persisting id t rec hl hctl)⟩
  · -- nothing happens outside
    refine h.replace rfl hstarting hstore (hlog.trans (List.append_nil _).symm) hconsistent h.keyed ?_
      (fun rec => hput rec hsame) (h.held.quiet trivial)
    intro rec hc
    exact List.mem_append_left _ (h.persisting id t rec hl (hctl rec hc))

/-- What a `Cleanup` removes is in the log, so everything is still held. -/
theorem AllHeld.expire {store : ReceiptStore X} {log : List (LogEntry X)} (h : AllHeld store log)
    (hkeyed : ∀ id e, store.get id = some e → e.id = id) (cut : Time) :
    AllHeld (store.expire cut)
      (log ++ (store.expired cut).filterMap fun id => (store.get id).map (.removed cut)) := by
  refine AllHeld.append (fun rec since hheld => ?_) ?_ log h
  · rcases hheld with ⟨e, he⟩ | ⟨cut', e, hmem, hid, hold⟩
    · by_cases hold : e.createdAt < cut
      · refine .inr ⟨cut, e, List.mem_append_right _ (List.mem_filterMap.mpr ⟨rec.id, ?_, ?_⟩),
          hkeyed rec.id e he, hold⟩
        · exact mem_expired.mpr ⟨e, he, hold⟩
        · rw [he]; rfl
      · exact .inl ⟨e, get_expire_eq_some.mpr ⟨he, not_lt.mp hold⟩⟩
    · exact .inr ⟨cut', e, List.mem_append_left _ hmem, hid, hold⟩
  · -- a `Cleanup` inserts nothing
    generalize store.expired cut = ids
    induction ids with
    | nil => trivial
    | cons id ids ih =>
        rw [List.filterMap_cons]
        cases store.get id with
        | none => exact ih
        | some e => exact ih

/-- **Every step keeps runs and store in order.** -/
theorem Stored.step {m m' : RunManager X} {a : ManagerAction} (h : Stored m)
    (hs : ManagerStep m a m') : Stored m' := by
  cases hs with
  | @number mode flow =>
      refine ⟨?_, h.consistent, h.keyed, h.persisting, h.put, h.held⟩
      intro r hr
      rcases List.mem_append.mp hr with hr | hr
      · exact h.starting r hr
      · rw [List.mem_singleton.mp hr]
        exact ⟨mode, if flow = "" then flowGoldenEscrow else flow, rfl⟩
  | @register i r hi =>
      obtain ⟨mode, flow, hr⟩ := h.starting r (List.mem_of_getElem? hi)
      have hfresh : Consistent (.ofRun r : Task X) := by
        rw [hr]
        exact ⟨rfl, rfl, rfl, nofun, nofun⟩
      have hstarting : ∀ r' ∈ m.starting.eraseIdx i, ∃ mode flow, r' = Run.new r'.id mode flow :=
        fun r' hr' => h.starting r' (List.mem_of_mem_eraseIdx hr')
      exact Stored.replace (m := { m with starting := m.starting.eraseIdx i })
        ⟨hstarting, h.consistent, h.keyed, h.persisting, h.put, h.held⟩ rfl rfl rfl
        (List.append_nil _).symm hfresh h.keyed nofun nofun (h.held.quiet trivial)
  | run hl hp hs => exact h.run hl hs
  | cleanup =>
      refine ⟨h.starting, h.consistent, ?_, ?_, ?_, h.held.expire h.keyed _⟩
      · intro id e he; exact h.keyed id e (get_expire_eq_some.mp he).1
      · intro id t rec hl hc; exact List.mem_append_left _ (h.persisting id t rec hl hc)
      · intro id t rec hl hp
        have hold := h.put id t rec hl hp
        exact ⟨List.mem_append_left _ hold.1, List.mem_append_left _ hold.2⟩

/-! ## Snapshots over a run of the manager -/

/-- **No run leaves the registry, and each only advances.** -/
theorem advances_step {m m' : RunManager X} {a : ManagerAction} (hr : Registry m) (h : Stored m)
    (hs : ManagerStep m a m') (id : String) (t : Task X) (hl : m.runs.lookup id = some t) :
    ∃ t', m'.runs.lookup id = some t' ∧ Advances t.run t'.run := by
  obtain ⟨t', hl', rfl | ⟨b, hb⟩⟩ := hs.after hr hl
  · exact ⟨t', hl', .refl _⟩
  · exact ⟨t', hl', hb.advances (h.consistent id t hl)⟩

theorem snapshot_eq_some {m : RunManager X} {id : String} {snap : Snapshot} :
    m.snapshot id = some snap ↔ ∃ t, m.runs.lookup id = some t ∧ t.run.snapshot = snap := by
  simp [RunManager.snapshot, RunManager.get]

/-- What one snapshot shows of a run that is over. -/
theorem result_of_final {m : RunManager X} (h : Stored m) {id : String} {t : Task X}
    (hl : m.runs.lookup id = some t) :
    (t.run.state = .complete → t.run.errMsg = "" ∧ ∃ rec before since, t.run.receiptID = rec.id ∧
        .returned id rec ∈ m.log ∧ m.log = before ++ .inserted id rec :: since ∧
        Held m.store rec since) ∧
      (t.run.state = .failed → t.run.receiptID = "" ∧ t.run.errMsg ≠ "") := by
  have hc := h.consistent id t hl
  -- a final state comes from a result, shown since the critical section before
  have hfinal : t.run.state.terminal = true → ∃ out, t.run.state = Run.finalState out ∧
      t.run.receiptID = receiptOf (some out) ∧ t.run.errMsg = messageOf (some out) ∧
      Task.Explains t.put out := by
    intro hterm
    obtain ⟨out, hctl⟩ := ctl_of_terminal (by rw [← hc.state]; exact hterm)
    refine ⟨out, ?_, ?_, ?_, ?_⟩
    · rw [hc.state]; rcases hctl with he | he <;> rw [he] <;> rfl
    · rw [hc.receiptID]; rcases hctl with he | he <;> rw [he] <;> rfl
    · rw [hc.errMsg]; rcases hctl with he | he <;> rw [he] <;> rfl
    · rcases hctl with he | he <;> exact hc.outcome _ _ he
  constructor
  · intro hstate
    obtain ⟨out, hout, hid, herr, hexp⟩ := hfinal (by rw [hstate]; rfl)
    cases out with
    | error e => rw [hstate] at hout; cases hout
    | ok receiptID =>
        obtain ⟨rec, hput, hrec⟩ := hexp
        obtain ⟨hreturned, hinserted⟩ := h.put id t rec hl hput
        obtain ⟨before, since, hlog, hheld⟩ := h.held.of_mem m.log hinserted
        exact ⟨herr, rec, before, since, hid.trans hrec.symm, hreturned, hlog, hheld⟩
  · intro hstate
    obtain ⟨out, hout, hid, herr, hexp⟩ := hfinal (by rw [hstate]; rfl)
    cases out with
    | ok receiptID => rw [hstate] at hout; cases hout
    | error e => exact ⟨hid, by rw [herr]; exact hexp⟩

/-- **Snapshots are consistent and final.** A server opens its store and runs; `m` is a moment at which a
    run is polled, `m'` a later one. The later snapshot shows a state further on, and the same snapshot if
    the run was over; a complete run shows no error and the id its own `Put` returned, under which the
    store holds an entry unless a `Cleanup` had to remove it; a failed run shows no receipt and says
    why. -/
theorem snapshots_consistent {C : RunCodec X} {os : Disk} {dir : String} {files : FilePath.Files C.Data}
    {store : ReceiptStore X} (hopen : newReceiptStore C os dir files = .ok store) (runner : Runner X)
    {before after : List ManagerAction} {m m' : RunManager X}
    (h : exec RunManager.step (newRunManager runner store) before = some m)
    (h' : exec RunManager.step m after = some m') {id : String} {snap : Snapshot}
    (hsnap : m.snapshot id = some snap) :
    ∃ snap', m'.snapshot id = some snap' ∧ snap.state.LeadsTo snap'.state ∧
      (snap.state.terminal = true → snap' = snap) ∧
      (snap.state = .complete → snap.error = "" ∧ ∃ rec early since, snap.receiptID = rec.id ∧
        .returned id rec ∈ m.log ∧ m.log = early ++ .inserted id rec :: since ∧
        Held m.store rec since) ∧
      (snap.state = .failed → snap.receiptID = "" ∧ snap.error ≠ "") := by
  have hinv : ∀ m a m', Registry m ∧ Stored m → RunManager.step m a = some m' →
      Registry m' ∧ Stored (m' : RunManager X) :=
    fun _ _ _ hi hs => ⟨hi.1.step (manager_step hs), hi.2.step (manager_step hs)⟩
  have hm : Registry m ∧ Stored m :=
    exec_invariant hinv before ⟨registry_new runner store, stored_new runner hopen⟩ h
  obtain ⟨t, hl, rfl⟩ := snapshot_eq_some.mp hsnap
  -- the same run is still registered later, and has only moved on
  obtain ⟨t', hl', hadv⟩ : ∃ t', m'.runs.lookup id = some t' ∧ Advances t.run t'.run :=
    exec_rel (R := fun m m' : RunManager X => ∀ id t, m.runs.lookup id = some t →
        ∃ t', m'.runs.lookup id = some t' ∧ Advances t.run t'.run)
      (fun _ _ t hl => ⟨t, hl, .refl _⟩)
      (fun _ _ _ h1 h2 id t hl => by
        obtain ⟨t', hl', ha⟩ := h1 id t hl
        obtain ⟨t'', hl'', ha'⟩ := h2 id t' hl'
        exact ⟨t'', hl'', ha.trans ha'⟩)
      hinv (fun _ _ _ hi hs => advances_step hi.1 hi.2 (manager_step hs)) after hm h' id t hl
  have hresult := result_of_final hm.2 hl
  exact ⟨t'.run.snapshot, snapshot_eq_some.mpr ⟨t', hl', rfl⟩, hadv.state, hadv.final, hresult.1,
    hresult.2⟩

/-- An anonymous run polled when it is complete, and again when its stream has ended. -/
theorem snapshots_consistent_sample : ∃ m m' snap,
    exec RunManager.step (newRunManager sampleNode { dir := "", runs := ∅ })
        ([.number modeAnonymous "", .register 0] ++ sampleActions.map (.run "run-1")) = some m ∧
      exec RunManager.step m [.run "run-1" .finish] = some m' ∧
      m.snapshot "run-1" = some snap ∧ snap.state = .complete ∧ m'.snapshot "run-1" = some snap := by
  have hrun : (exec RunManager.step (newRunManager sampleNode { dir := "", runs := ∅ })
      ([.number modeAnonymous "", .register 0] ++ sampleActions.map (.run "run-1") ++
        [.run "run-1" .finish])).isSome = true := by decide +kernel
  have hpoll : (exec RunManager.step (newRunManager sampleNode { dir := "", runs := ∅ })
      ([.number modeAnonymous "", .register 0] ++ sampleActions.map (.run "run-1"))).map
        (fun m => (m.snapshot "run-1").map Snapshot.state) = some (some .complete) := by
    decide +kernel
  obtain ⟨m', hm'⟩ := Option.isSome_iff_exists.mp hrun
  obtain ⟨m, hm, hlast⟩ := exec_append_iff.mp hm'
  rw [hm, Option.map_some, Option.some.injEq] at hpoll
  obtain ⟨snap, hsnap, hstate⟩ := Option.map_eq_some_iff.mp hpoll
  have hopen : newReceiptStore (sampleCodec sampleX) .ok "" ∅ = .ok { dir := "", runs := ∅ } := rfl
  obtain ⟨snap', hsnap', _, hfinal, _⟩ := snapshots_consistent hopen sampleNode hm hlast hsnap
  rw [hfinal (by rw [hstate]; rfl)] at hsnap'
  exact ⟨m, m', snap, hm, hlast, hsnap, hstate, hsnap'⟩

end Api
end InfrixPlayground
