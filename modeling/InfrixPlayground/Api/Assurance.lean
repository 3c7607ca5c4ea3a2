import InfrixPlayground.Api.RunManager

/-!
# `Api.Assurance` — what a stored run claims about its proof

The node that runs a flow is not trusted: the receipt is made from the verifier's own report. The label
that is stored and served beside the receipt is the node's. `Traces` follows every record back to the
node's answer, and `anonymous_claims_iff` says what an anonymous run's record can claim: exactly what the
node's label does.
-/

namespace InfrixPlayground

open GoText Worker Machine

/-! ## Claims

Labels are free text, so what they claim is a matter of reading: `names` is any reading of which labels
speak of L4 or of a confirmed L0 anchor. -/

/-- The plainest reading: `strings.Contains(strings.ToUpper(label), "L4")`. -/
def namesL4 (label : String) : Bool := contains (toUpper label) "L4"

/-- An assurance of L4, or of a confirmed L0 anchor. -/
def Assurance.claims (names : String → Bool) (a : Assurance) : Bool := names a.proofLevel || a.l0Verified

namespace Api

variable {X : Externals}

/-! ## The receipt endpoint -/

/-- What `GET /api/receipts/{id}` answers for a run it finds. -/
structure ReceiptView (X : Externals) where
  id : String
  mode : String
  flow : String
  network : String
  proofLabel : String
  receipt : Option X.Receipt

/-- What `GET /api/receipts/{id}` answers for a stored run. -/
def receiptView (run : StoredRun X) : ReceiptView X :=
  { id := run.id
    mode := run.mode
    flow := run.flow
    network := run.network
    proofLabel := run.proofLabel
    receipt := run.receipt }

/-- `GET /api/receipts/{id}`: the counters after it, and its answer; a failure is a status and a message. -/
def handleGetReceipt (store : ReceiptStore X) (metrics : Metrics) (id : String) :
    Metrics × Except (Nat × String) (ReceiptView X) :=
  match store.get id with
  | none => (metrics, .error (404, "receipt not found"))
  | some run => (metrics.inc metricReceiptViews, .ok (receiptView run))

/-- The receipt's assurance or the record's label claims L4 or L0 confirmation. -/
def ReceiptView.claims (names : String → Bool) (v : ReceiptView X) : Bool :=
  names v.proofLabel ||
    match v.receipt with
    | some receipt => (X.assurance receipt).claims names
    | none => false

/-! ## From the record back to the node's answer -/

/-- A result `Runner.Run` returned on the node's answer to this run. -/
def ResultOf (rn : Runner X) (t : Task X) (result : RunResult X) : Prop :=
  ∃ reply verifiedAt effs, t.answer = some reply ∧
    rn.run (fun _ => reply) verifiedAt t.run.mode t.run.flow = (effs, .ok result)

/-- A record `Put` made of such a result. -/
def RecordOf (rn : Runner X) (t : Task X) (rec : StoredRun X) : Prop :=
  ∃ result now, ResultOf rn t result ∧
    StoredRun.prepare now (some (storedRun t.run.flow result)) = .ok rec

/-- The goroutine has not been answered yet. -/
def Ctl.Unanswered : Ctl X → Prop
  | .registered => True
  | .counted => True
  | .executing => True
  | .waiting _ => True
  | _ => False

/-- The goroutine has put its record, or will put none. -/
def Ctl.Past : Ctl X → Prop
  | .persisting _ => True
  | .finishing _ _ => True
  | _ => False

/-- **The invariant of a run's result.** -/
structure Answered (rn : Runner X) (t : Task X) : Prop where
  unanswered : t.ctl.Unanswered → t.answer = none
  emitting : ∀ todo result, t.ctl = .emitting todo (.ok result) → ResultOf rn t result
  storing : ∀ result, t.ctl = .storing result → ResultOf rn t result

/-- Once its record is put, a run stays past it, and the node's answer stays what it was. -/
theorem TaskStep.past {rn : Runner X} {t t' : Task X} {a : RunAction} (hs : TaskStep rn t a t')
    (hp : t.ctl.Past) : t'.ctl.Past ∧ t'.answer = t.answer := by
  cases hs with
  | count hc => rw [hc] at hp; exact hp.elim
  | launch hc => rw [hc] at hp; exact hp.elim
  | call hc _ => rw [hc] at hp; exact hp.elim
  | refuse hc _ _ => rw [hc] at hp; exact hp.elim
  | reply hc _ => rw [hc] at hp; exact hp.elim
  | emit hc => rw [hc] at hp; exact hp.elim
  | runFailed hc => rw [hc] at hp; exact hp.elim
  | runReturned hc => rw [hc] at hp; exact hp.elim
  | putRefused hc _ => rw [hc] at hp; exact hp.elim
  | inserted hc _ => rw [hc] at hp; exact hp.elim
  | subscribe => exact ⟨hp, rfl⟩
  | unsub => exact ⟨hp, rfl⟩
  | recv => exact ⟨hp, rfl⟩
  | _ => exact ⟨trivial, rfl⟩

/-- Only the node's reply changes what a run was answered. -/
theorem TaskStep.answer_of_storing {rn : Runner X} {t t' : Task X} {a : RunAction}
    (hs : TaskStep rn t a t') {result : RunResult X} (hc : t.ctl = .storing result) :
    t'.answer = t.answer := by
  cases hs with
  | reply hc' _ => rw [hc] at hc'; cases hc'
  | _ => rfl

theorem ResultOf.congr {rn : Runner X} {t t' : Task X} {result : RunResult X}
    (hask : t'.run.mode = t.run.mode ∧ t'.run.flow = t.run.flow) (hanswer : t'.answer = t.answer)
    (h : ResultOf rn t result) : ResultOf rn t' result := by
  obtain ⟨reply, verifiedAt, effs, ha, hr⟩ := h
  exact ⟨reply, verifiedAt, effs, hanswer.trans ha, by rw [hask.1, hask.2]; exact hr⟩

/-- **Every step of a run** keeps its result tied to the node's answer. -/
theorem Answered.step {rn : Runner X} {t t' : Task X} {a : RunAction} (h : Answered rn t)
    (hs : TaskStep rn t a t') : Answered rn t' := by
  have hask := hs.asked
  cases hs with
  | count hc => exact ⟨fun _ => h.unanswered (by rw [hc]; trivial), nofun, nofun⟩
  | launch hc => exact ⟨fun _ => h.unanswered (by rw [hc]; trivial), nofun, nofun⟩
  | call hc hp => exact ⟨fun _ => h.unanswered (by rw [hc]; trivial), nofun, nofun⟩
  | @refuse effs res hc hp hr =>
      refine ⟨nofun, ?_, nofun⟩
      intro todo result he
      cases he
      -- without a call there is no result
      obtain ⟨call, _, _, hcall, _⟩ := run_ok hr
      rw [hp] at hcall
      exact absurd hcall (by simp)
  | @reply call reply verifiedAt effs res hc hr =>
      refine ⟨nofun, ?_, nofun⟩
      intro todo result he
      cases he
      exact ⟨reply, verifiedAt, effs, rfl, hr⟩
  | emit hc =>
      refine ⟨nofun, ?_, nofun⟩
      intro todo result he
      cases he
      exact (h.emitting _ _ hc).congr hask rfl
  | runFailed hc => exact ⟨nofun, nofun, nofun⟩
  | runReturned hc =>
      refine ⟨nofun, nofun, ?_⟩
      intro result he
      cases he
      exact (h.emitting _ _ hc).congr hask rfl
  | putRefused hc hp => exact ⟨nofun, nofun, nofun⟩
  | inserted hc hp => exact ⟨nofun, nofun, nofun⟩
  | returned hc => exact ⟨nofun, nofun, nofun⟩
  | notPersisted hc => exact ⟨nofun, nofun, nofun⟩
  | setResult hc => exact ⟨nofun, nofun, nofun⟩
  | setState hc => exact ⟨nofun, nofun, nofun⟩
  | publish hc => exact ⟨nofun, nofun, nofun⟩
  | subscribe =>
      exact ⟨h.unanswered, fun todo result he => (h.emitting todo result he).congr hask rfl,
        fun result he => (h.storing result he).congr hask rfl⟩
  | unsub => exact ⟨h.unanswered, h.emitting, h.storing⟩
  | recv => exact ⟨h.unanswered, h.emitting, h.storing⟩

/-- **The invariant of the records.** Every record the log says was inserted was made by its run out of the
    node's answer to it. -/
structure Traces (m : RunManager X) : Prop where
  answered : ∀ id t, m.runs.lookup id = some t → Answered m.runner t
  inserted : ∀ id rec, .inserted id rec ∈ m.log →
    ∃ t, m.runs.lookup id = some t ∧ t.ctl.Past ∧ RecordOf m.runner t rec

theorem traces_new (runner : Runner X) (store : ReceiptStore X) :
    Traces (newRunManager runner store) := by
  refine ⟨?_, fun id rec h => absurd h List.not_mem_nil⟩
  intro id t hl
  rw [lookup_new] at hl
  cases hl

/-- A record inserted before a step is still that of its run. -/
theorem Traces.kept {m m' : RunManager X} {a : ManagerAction} (hr : Registry m) (h : Traces m)
    (hs : ManagerStep m a m') {id : String} {rec : StoredRun X} (hmem : .inserted id rec ∈ m.log) :
    ∃ t, m'.runs.lookup id = some t ∧ t.ctl.Past ∧ RecordOf m.runner t rec := by
  obtain ⟨t, hl, hpast, result, now, hresult, hprep⟩ := h.inserted id rec hmem
  obtain ⟨t', hl', rfl | ⟨b, hb⟩⟩ := hs.after hr hl
  · exact ⟨t', hl', hpast, result, now, hresult, hprep⟩
  · obtain ⟨hpast', hsame⟩ := hb.past hpast
    exact ⟨t', hl', hpast', result, now, hresult.congr hb.asked hsame, by rw [hb.asked.2]; exact hprep⟩

/-- **Every step keeps the records traceable.** -/
theorem Traces.step {m m' : RunManager X} {a : ManagerAction} (hr : Registry m) (h : Traces m)
    (hs : ManagerStep m a m') : Traces m' := by
  constructor
  · intro id t' hl
    rw [hs.runner_eq]
    rcases hs.before hl with ⟨r, _, _, rfl⟩ | ⟨t, hl, rfl | ⟨b, hb⟩⟩
    · exact ⟨fun _ => rfl, nofun, nofun⟩
    · exact h.answered id t' hl
    · exact (h.answered id t hl).step hb
  · intro id rec hmem
    rw [hs.runner_eq]
    rcases hs.inserted_cases hmem with hold | ⟨_, b, t, t', hl, hb, hl', hctl, result, now, hc, hprep⟩
    · exact h.kept hr hs hold
    · -- the run makes its record of the result that its invariant speaks of
      have hresult := ((h.answered id t hl).storing result hc).congr hb.asked (hb.answer_of_storing hc)
      exact ⟨t', hl', by rw [hctl]; trivial, result, now, hresult, by rw [hb.asked.2]; exact hprep⟩

/-! ## What a run has put is retained -/

/-- The store serves the record of a run, unless a `Cleanup` since, with a cutoff after its creation, has removed it
    or another run has put a record under its id. -/
def Retained (store : ReceiptStore X) (id : String) (rec : StoredRun X) (since : List (LogEntry X)) : Prop :=
  store.get rec.id = some rec ∨ (∃ cut, .removed cut rec ∈ since ∧ rec.createdAt < cut) ∨
    ∃ id' rec', .inserted id' rec' ∈ since ∧ id' ≠ id ∧ rec'.id = rec.id

theorem Retained.mono {store store' : ReceiptStore X} {id : String} {rec : StoredRun X}
    {since new : List (LogEntry X)} (h : Retained store id rec since)
    (hget : store.get rec.id = some rec → Retained store' id rec (since ++ new)) : Retained store' id rec (since ++ new) := by
  rcases h with h | ⟨cut, hmem, hold⟩ | ⟨id', rec', hmem, hid⟩
  · exact hget h
  · exact .inr (.inl ⟨cut, List.mem_append_left _ hmem, hold⟩)
  · exact .inr (.inr ⟨id', rec', List.mem_append_left _ hmem, hid⟩)

/-- Every record the log says was inserted is retained. -/
def AllRetained (m : RunManager X) : Prop :=
  ∀ early id rec since, m.log = early ++ .inserted id rec :: since → Retained m.store id rec since

/-- An entry of a log that has grown is one of before, or one of those it has grown by. -/
theorem split_append {log new early since : List (LogEntry X)} {entry : LogEntry X}
    (h : log ++ new = early ++ entry :: since) :
    (∃ since', log = early ++ entry :: since' ∧ since = since' ++ new) ∨
      ∃ early', new = early' ++ entry :: since := by
  rcases List.append_eq_append_iff.mp h with ⟨early', _, hnew⟩ | ⟨since', hlog, hsince⟩
  · exact .inr ⟨early', hnew⟩
  · cases since' with
    | nil => exact .inr ⟨[], hsince.symm⟩
    | cons e since' =>
        obtain ⟨rfl, rfl⟩ := List.cons.inj hsince
        exact .inl ⟨since', hlog, rfl⟩

/-- **What a run has put is retained**, whatever the manager does. -/
theorem AllRetained.step {m m' : RunManager X} {a : ManagerAction} (ht : Traces m) (h : AllRetained m)
    (hs : ManagerStep m a m') : AllRetained m' := by
  intro early id rec since hsplit
  rcases hs.store_cases with ⟨hstore, new, hlog, hnone⟩ | ⟨id', rec', t, result, hstore, hlog, hl, hctl⟩ |
    ⟨cut, hstore, hlog⟩ <;> rw [hlog] at hsplit <;> rw [hstore]
  · rcases split_append hsplit with ⟨since, hold, rfl⟩ | ⟨early', hnew⟩
    · exact (h _ _ _ _ hold).mono fun hget => .inl hget
    · exact absurd (by rw [hnew]; simp) (hnone id rec)
  · rcases split_append hsplit with ⟨since, hold, rfl⟩ | ⟨early', hnew⟩
    · refine (h _ _ _ _ hold).mono fun hget => ?_
      by_cases hid : rec'.id = rec.id
      · -- a run that has put its record stores no other
        have hne : id' ≠ id := by
          rintro rfl
          obtain ⟨u, hu, hpast, _⟩ := ht.inserted id' rec (by rw [hold]; simp)
          cases Option.some.inj (hl.symm.trans hu)
          rw [hctl] at hpast
          exact hpast
        exact .inr (.inr ⟨id', rec', by simp, hne, hid⟩)
      · exact .inl (by rw [get_insert, if_neg (Ne.symm hid), hget])
    · obtain ⟨_, hnew⟩ := List.append_eq_singleton_iff.mp hnew.symm |>.resolve_right (by simp)
      cases hnew
      exact .inl (by rw [get_insert, if_pos rfl])
  · rcases split_append hsplit with ⟨since, hold, rfl⟩ | ⟨early', hnew⟩
    · refine (h _ _ _ _ hold).mono fun hget => ?_
      by_cases hcut : rec.createdAt < cut
      · refine .inr (.inl ⟨cut, List.mem_append_right _ (List.mem_filterMap.mpr ⟨rec.id, ?_, ?_⟩), hcut⟩)
        · exact mem_expired.mpr ⟨rec, hget, hcut⟩
        · rw [hget]; rfl
      · exact .inl (get_expire_eq_some.mpr ⟨hget, not_lt.mp hcut⟩)
    · obtain ⟨e, he⟩ := eq_removed_of_mem (show LogEntry.inserted id rec ∈ _ by rw [hnew]; simp)
      cases he

/-! ## What an anonymous record claims -/

/-- **The record of an anonymous run.** Its label is the node's, and its receipt is made from what the
    verifier reports without an L0 confirmer. -/
theorem RecordOf.anonymous {rn : Runner X} {t : Task X} {rec : StoredRun X} (h : RecordOf rn t rec)
    (hmode : rec.mode = modeAnonymous.name) :
    ∃ reply resp pkg receipt opts verifyOpts, t.run.mode = modeAnonymous ∧ t.answer = some reply ∧
      decodeReply X reply = .ok resp ∧ rec.proofLabel = resp.proofLabel ∧
      rec.receipt = some receipt ∧ verifyOpts.l0Confirmer = none ∧
      X.fromVerifyReport (X.verify pkg verifyOpts) opts = some receipt := by
  obtain ⟨result, now, ⟨reply, verifiedAt, effs, hanswer, hrun⟩, hprep⟩ := h
  obtain ⟨call, resp, pkg, _, hdecode, _, hof, hlabel, hreceipt⟩ := run_ok hrun
  obtain ⟨run₀, receipt, _, hrun₀, hsome, _, rfl⟩ := prepare_eq_ok hprep
  cases hrun₀
  have hanonymous : t.run.mode = modeAnonymous := by
    rw [← hof]
    exact congrArg Mode.mk hmode
  refine ⟨reply, resp, pkg, receipt, _, rn.verifyOptions t.run.mode, hanonymous, hanswer, hdecode, hlabel,
    hsome, ?_, hreceipt.symm.trans hsome⟩
  rw [hanonymous]
  rfl

/-- **The record of a run**: the mode is the run's, and the receipt comes from the verdict with the options of
    that mode. -/
theorem RecordOf.verdict {rn : Runner X} {t : Task X} {rec : StoredRun X} (h : RecordOf rn t rec) :
    ∃ pkg receipt opts, rec.mode = t.run.mode.name ∧ rec.receipt = some receipt ∧
      X.fromVerifyReport (X.verify pkg (rn.verifyOptions t.run.mode)) opts = some receipt := by
  obtain ⟨result, now, ⟨reply, verifiedAt, effs, _, hrun⟩, hprep⟩ := h
  obtain ⟨call, resp, pkg, _, _, _, hmode, _, hreceipt⟩ := run_ok hrun
  obtain ⟨run₀, receipt, _, hrun₀, hsome, _, rfl⟩ := prepare_eq_ok hprep
  cases hrun₀
  exact ⟨pkg, receipt, _, congrArg Mode.name hmode, hsome, hreceipt.symm.trans hsome⟩

/-- Whatever the store serves was there when the server started, or was inserted by a run since. -/
def Sourced (store : ReceiptStore X) (m : RunManager X) : Prop :=
  ∀ shareID rec, m.store.get shareID = some rec →
    store.get shareID = some rec ∨ ∃ id, .inserted id rec ∈ m.log

theorem Sourced.step {store : ReceiptStore X} {m m' : RunManager X} {a : ManagerAction}
    (h : Sourced store m) (hs : ManagerStep m a m') : Sourced store m' := by
  intro shareID rec hget
  rcases hs.get_cases hget with hget | hnew
  · rcases h shareID rec hget with hold | ⟨id, hmem⟩
    · exact .inl hold
    · exact .inr ⟨id, hs.log_prefix.subset hmem⟩
  · exact .inr hnew

/-- **Where the records come from.** Every record the store has gained was made by one of its manager's runs
    with its runner. -/
structure Provenance (rn : Runner X) (store : ReceiptStore X) (m : RunManager X) : Prop where
  runner : m.runner = rn
  registry : Registry m
  traces : Traces m
  sourced : Sourced store m

theorem provenance_new (rn : Runner X) (store : ReceiptStore X) :
    Provenance rn store (newRunManager rn store) :=
  ⟨rfl, registry_new rn store, traces_new rn store, fun _ _ hget => .inl hget⟩

theorem Provenance.step {rn : Runner X} {store : ReceiptStore X} {m m' : RunManager X} {a : ManagerAction}
    (h : Provenance rn store m) (hs : ManagerStep m a m') : Provenance rn store m' :=
  ⟨hs.runner_eq.trans h.runner, h.registry.step hs, h.traces.step h.registry hs, h.sourced.step hs⟩

/-- The counters have no part in it. -/
theorem Provenance.metrics {rn : Runner X} {store : ReceiptStore X} {m : RunManager X}
    (h : Provenance rn store m) (metrics : Metrics) : Provenance rn store { m with metrics := metrics } :=
  ⟨h.runner, ⟨h.registry.starting_named, h.registry.runs_named, h.registry.fresh, h.registry.nodup⟩,
    ⟨h.traces.answered, h.traces.inserted⟩, h.sourced⟩

/-- A record that was not there at the start, and the run that made it. -/
theorem Provenance.record {rn : Runner X} {store : ReceiptStore X} {m : RunManager X}
    (h : Provenance rn store m) {shareID : String} {rec : StoredRun X}
    (hserved : m.store.get shareID = some rec) (hnew : store.get shareID ≠ some rec) :
    ∃ id t, m.runs.lookup id = some t ∧ .inserted id rec ∈ m.log ∧ RecordOf rn t rec := by
  rcases h.sourced shareID rec hserved with hold | ⟨id, hinserted⟩
  · exact absurd hold hnew
  · obtain ⟨t, hrun, _, hrec⟩ := h.traces.inserted id rec hinserted
    exact ⟨id, t, hrun, hinserted, h.runner ▸ hrec⟩

/-- **When an anonymous record claims L4.** At any moment of a server, whatever anonymous record its store
    serves that was not there at its start was made by one of its runs. What is served claims L4 or an L0
    confirmation, by any reading of labels, exactly when the label in the node's answer to that run does;
    the receipt never does. -/
theorem anonymous_claims_iff {names : String → Bool}
    (hverify : ∀ (pkg : X.Package) (opts : Options X.Confirmer), opts.l0Confirmer = none →
      (X.reportAssurance (X.verify pkg opts)).claims names = false)
    (hconvert : ∀ (rep : X.Report) (opts : ConvertOptions) (receipt : X.Receipt),
      X.fromVerifyReport rep opts = some receipt → X.assurance receipt = X.reportAssurance rep)
    (runner : Runner X) (store : ReceiptStore X) {as : List ManagerAction} {m : RunManager X}
    (h : exec RunManager.step (newRunManager runner store) as = some m) {shareID : String}
    {rec : StoredRun X} (hserved : m.store.get shareID = some rec)
    (hnew : store.get shareID ≠ some rec) (hmode : rec.mode = modeAnonymous.name) :
    ∃ id t reply resp view, m.runs.lookup id = some t ∧ .inserted id rec ∈ m.log ∧
      t.run.mode = modeAnonymous ∧ t.answer = some reply ∧ decodeReply X reply = .ok resp ∧
      (handleGetReceipt m.store m.metrics shareID).2 = .ok view ∧
      (∃ receipt, view.receipt = some receipt ∧ (X.assurance receipt).claims names = false) ∧
      (view.claims names = false ↔ names resp.proofLabel = false) := by
  have hprov : Provenance runner store m :=
    exec_invariant (fun _ _ _ hi hs => hi.step (manager_step hs)) as (provenance_new runner store) h
  obtain ⟨id, t, hrun, hinserted, hrec⟩ := hprov.record hserved hnew
  -- without a confirmer the receipt stays below L4: what is left is the label the node sent
  obtain ⟨reply, resp, pkg, receipt, opts, verifyOpts, hasked, hanswer, hdecode, hlabel, hreceipt, hnone,
    hmade⟩ := hrec.anonymous hmode
  have hassurance : (X.assurance receipt).claims names = false := by
    rw [hconvert _ _ _ hmade]
    exact hverify pkg verifyOpts hnone
  refine ⟨id, t, reply, resp, _, hrun, hinserted, hasked, hanswer, hdecode,
    by rw [handleGetReceipt, hserved], ⟨receipt, hreceipt, hassurance⟩, ?_⟩
  simp only [ReceiptView.claims, receiptView, hreceipt, hassurance, hlabel, Bool.or_false]

/-- The stand-in whose node labels every package so. -/
abbrev labellingX (label : String) : Externals := .sample fun _ => .ok (sampleResponse label [0x7B, 0x7D])

/-- A server against it, after one anonymous run. -/
def labelledServer (label : String) : Option (RunManager (labellingX label)) :=
  exec RunManager.step (newRunManager (.new _ "http://127.0.0.1:8080" false) { dir := "", runs := ∅ })
    ([.number modeAnonymous "", .register 0] ++ sampleActions.map (.run "run-1"))

/-- The share link of that run. -/
def sampleShareID : String := "696e74656e74"

/-- Without a confirmer the stand-in's verifier stays at L3. -/
theorem verify_offline_sample (label : String) (pkg : SamplePackage) (opts : Options (Hash → Bool))
    (h : opts.l0Confirmer = none) :
    ((labellingX label).reportAssurance ((labellingX label).verify pkg opts)).claims namesL4 = false := by
  simp only [labellingX, Externals.sample, confirms, h]
  decide +kernel

/-- A node that labels its package L3. -/
theorem anonymous_claims_iff_sample : ∃ m, labelledServer "L3" = some m ∧
    ∃ (t : Task (labellingX "L3")) (reply : NodeReply) (resp : RunFlowResponse SamplePackage)
      (view : ReceiptView (labellingX "L3")), t.answer = some reply ∧
      decodeReply (labellingX "L3") reply = .ok resp ∧
      (handleGetReceipt m.store m.metrics sampleShareID).2 = .ok view ∧
      (view.claims namesL4 = false ↔ namesL4 resp.proofLabel = false) := by
  have hrun : (labelledServer "L3").map (fun m => (m.store.get sampleShareID).map StoredRun.mode)
      = some (some modeAnonymous.name) := by decide +kernel
  obtain ⟨m, hm, hget⟩ := Option.map_eq_some_iff.mp hrun
  obtain ⟨rec, hserved, hmode⟩ := Option.map_eq_some_iff.mp hget
  obtain ⟨_, t, reply, resp, view, _, _, _, hanswer, hdecode, hview, _, hiff⟩ :=
    anonymous_claims_iff (verify_offline_sample "L3") (fun rep opts receipt h => by cases h; rfl) _ _ hm
      hserved (by simp [ReceiptStore.get]) hmode
  exact ⟨m, hm, t, reply, resp, view, hanswer, hdecode, hview, hiff⟩

/-- A node that labels its package L4: without a confirmer the verifier reports no L4, and the anonymous
    record that is served says L4. -/
theorem anonymous_record_claims_L4 :
    (∀ (pkg : SamplePackage) (opts : Options (Hash → Bool)), opts.l0Confirmer = none →
      ((labellingX "L4").reportAssurance ((labellingX "L4").verify pkg opts)).claims namesL4 = false) ∧
    ∃ m view, labelledServer "L4" = some m ∧
      (handleGetReceipt m.store m.metrics sampleShareID).2 = .ok view ∧
      view.mode = modeAnonymous.name ∧ view.claims namesL4 = true := by
  refine ⟨verify_offline_sample "L4", ?_⟩
  have hrun : (labelledServer "L4").map (fun m =>
      match (handleGetReceipt m.store m.metrics sampleShareID).2 with
      | .ok view => (view.mode, view.claims namesL4)
      | .error _ => ("", false)) = some (modeAnonymous.name, true) := by decide +kernel
  obtain ⟨m, hm, hview⟩ := Option.map_eq_some_iff.mp hrun
  split at hview
  · rename_i view hget
    rw [Prod.mk.injEq] at hview
    exact ⟨m, view, hm, hget, hview.1, hview.2⟩
  · simp at hview

end Api
end InfrixPlayground
