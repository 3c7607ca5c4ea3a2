import InfrixPlayground.Api.Admission
import InfrixPlayground.Api.Assurance
import InfrixPlayground.Api.RunHistory
import InfrixPlayground.Api.Snapshots

/-!
# `Api.Verify` — from a run's bundle back to its verdict

A run's package leaves the server as text: the bundle endpoint serves it, and the agent endpoint sends it as
a field of its answer. `POST /api/verify` reads such a text back, up to the upload bound, and verifies what it
decodes. `Completed` and `OwnText` follow a run to the text that is offered for it, and `verify_closes_loop`
says what verdict comes back.
-/

namespace InfrixPlayground
namespace Api

open Worker Machine

variable {X : Externals}

/-! ## The endpoints -/

/-- `encoding/json` between a package and a request or response body. -/
structure UploadCodec (X : Externals) where
  /-- `json.NewDecoder(r).Decode(&pkg)` on a reader that yields these bytes and no more. -/
  decodePackage : GoText.Bytes → Option X.Package
  /-- How a raw message stands as a field of an indented response. -/
  indentField : GoText.Bytes → GoText.Bytes

/-- What `GET /api/receipts/{id}/bundle` answers for a run it finds. -/
structure BundleReply where
  contentType : String
  contentDisposition : String
  body : GoText.Bytes
deriving DecidableEq

/-- `GET /api/receipts/{id}/bundle`; a failure is a status and a message. -/
def handleGetBundle (store : ReceiptStore X) (id : String) : Except (Nat × String) BundleReply :=
  match store.get id with
  | none => .error (404, "bundle not found")
  | some run =>
    .ok
      { contentType := "application/json; charset=utf-8"
        contentDisposition := "attachment; filename=" ++ X.quote (run.id ++ ".infrix.json")
        body := run.bundleJSON }

/-- What `POST /api/verify` answers with 200. -/
structure VerifyReply (X : Externals) where
  verified : Bool
  receipt : Option X.Receipt

/-- No L0 confirmer: the verdict is offline. -/
def offline (X : Externals) : Options X.Confirmer := { l0Confirmer := none }

/-- What `POST /api/verify` answers for a package. -/
def verifyReply (pkg : X.Package) : VerifyReply X :=
  let rep := X.verify pkg (offline X)
  { verified := X.verified rep
    receipt := X.fromVerifyReport rep
      { subjectType := "", intentID := "", planID := "", outcomeID := "", evidenceID := "",
        anchorTx := "", verifier := "infrix verify (playground, offline)",
        command := "infrix verify <bundle>.infrix.json", network := "", verifiedAt := "" } }

/-- `POST /api/verify`: the server after it, and its answer; a failure is a status and a message. -/
def Server.handleVerify (D : UploadCodec X) (s : Server X) (now : Time) (r : HttpRequest) :
    Server X × Except (Nat × String) (VerifyReply X) :=
  let (limiter, d) := s.limiter.allow now (clientKey r)
  let s := { s with limiter := limiter }
  if !d.allowed then
    (s.inc metricRateLimited, .error (429, "rate limit exceeded — please wait a moment and try again"))
  else
    match D.decodePackage (r.body.take s.guard.maxUploadBytes) with
    | none => (s, .error (400, "invalid portable evidence package JSON"))
    | some pkg => (s.inc metricVerifications, .ok (verifyReply pkg))

/-! ## The texts of a package -/

/-- A text of a package, as the bundle endpoint or the agent endpoint sends it. -/
def UploadCodec.Spells (D : UploadCodec X) (pkg : X.Package) (text : GoText.Bytes) : Prop :=
  ∃ bundleJSON, X.marshalPackage pkg = .ok bundleJSON ∧ (text = bundleJSON ∨ text = D.indentField bundleJSON)

/-- `encoding/json` round-trips the package type, indented or not, and a text that breaks off is no value. -/
structure UploadCodec.Lawful (D : UploadCodec X) : Prop where
  whole : ∀ {pkg text}, D.Spells pkg text → D.decodePackage text = some pkg
  cut : ∀ {pkg text}, D.Spells pkg text → ∀ {n}, n < text.length → D.decodePackage (text.take n) = none

/-- **What the upload bound lets through** of a package's text. -/
theorem UploadCodec.Lawful.decode_take {D : UploadCodec X} (hD : D.Lawful) {pkg : X.Package}
    {text : GoText.Bytes} (h : D.Spells pkg text) (n : Nat) :
    D.decodePackage (text.take n) = if text.length ≤ n then some pkg else none := by
  by_cases hn : text.length ≤ n
  · rw [List.take_of_length_le hn, if_pos hn, hD.whole h]
  · rw [if_neg hn, hD.cut h (Nat.lt_of_not_le hn)]

/-- **What an admitted upload of a package's text is answered.** -/
theorem handleVerify_admitted {D : UploadCodec X} (hD : D.Lawful) {s : Server X} {now : Time}
    {r : HttpRequest} (hadmitted : (s.limiter.allow now (clientKey r)).2.allowed = true) {pkg : X.Package}
    (h : D.Spells pkg r.body) :
    (r.body.length ≤ s.guard.maxUploadByte → ∃ reply, (s.handleVerify D now r).2 = .ok reply ∧
        reply.verified = X.verified (X.verify pkg (offline X))) ∧
      (¬ r.body.length ≤ s.guard.maxUploadByte →
        (s.handleVerify D now r).2 = .error (400, "invalid portable evidence package JSON")) := by
  have htake := hD.decode_take h s.guard.maxUploadBytes
  unfold AbuseGuard.maxUploadBytes at htake
  constructor <;> intro hn
  · rw [if_pos hn] at htake
    simp [Server.handleVerify, verifyReply, hadmitted, htake, AbuseGuard.maxUploadBytes]
  · rw [if_neg hn] at htake
    simp [Server.handleVerify, hadmitted, htake, AbuseGuard.maxUploadBytes]

/-! ## From the run to its text -/

/-- The run is complete, and its receipt id is this. -/
def RunManager.Completed (m : RunManager X) (id receiptID : String) : Prop :=
  ∃ t, m.runs.lookup id = some t ∧ t.run.state = .complete ∧ t.run.receiptID = receiptID

/-- The record that was last put under an id, and the run that put it. -/
def lastFiled (receiptID : String) : List (LogEntry X) → Option (String × StoredRun X)
  | [] => none
  | .inserted id rec :: since =>
    (lastFiled receiptID since).or (if rec.id = receiptID then some (id, rec) else none)
  | _ :: since => lastFiled receiptID since

theorem lastFiled_append {receiptID : String} {new : List (LogEntry X)} : ∀ log : List (LogEntry X),
    lastFiled receiptID (log ++ new) = (lastFiled receiptID new).or (lastFiled receiptID log) := by
  intro log
  induction log with
  | nil => exact (Option.or_none).symm
  | cons entry log ih => cases entry <;> simp [lastFiled, ih, Option.or_assoc]

/-- Entries that insert nothing. -/
theorem lastFiled_quiet {receiptID : String} {log : List (LogEntry X)}
    (h : ∀ id rec, .inserted id rec ∉ log) : lastFiled receiptID log = none := by
  induction log with
  | nil => rfl
  | cons entry log ih =>
      have ih := ih fun id rec hmem => h id rec (List.mem_cons_of_mem _ hmem)
      cases entry with
      | inserted id rec => exact absurd List.mem_cons_self (h id rec)
      | called id call => exact ih
      | returned id rec => exact ih
      | removed cut rec => exact ih

theorem mem_of_lastFiled {receiptID id : String} {rec : StoredRun X} {log : List (LogEntry X)}
    (h : lastFiled receiptID log = some (id, rec)) : .inserted id rec ∈ log ∧ rec.id = receiptID := by
  induction log with
  | nil => cases h
  | cons entry log ih =>
      cases entry with
      | inserted id' rec' =>
          rcases Option.or_eq_some_iff.mp h with h | ⟨_, h⟩
          · exact ⟨List.mem_cons_of_mem _ (ih h).1, (ih h).2⟩
          · split at h
            · rename_i hid; cases h; exact ⟨List.mem_cons_self, hid⟩
            · cases h
      | called id call => exact ⟨List.mem_cons_of_mem _ (ih h).1, (ih h).2⟩
      | returned id rec => exact ⟨List.mem_cons_of_mem _ (ih h).1, (ih h).2⟩
      | removed cut rec => exact ⟨List.mem_cons_of_mem _ (ih h).1, (ih h).2⟩

/-- **What a step files under an id**: nothing, and the store serves nothing new there; or the record of a run
    that had none before, and the store serves it. -/
theorem ManagerStep.filed_cases {m m' : RunManager X} {a : ManagerAction} (hs : ManagerStep m a m')
    (receiptID : String) :
    (lastFiled receiptID m'.log = lastFiled receiptID m.log ∧
      ∀ e, m'.store.get receiptID = some e → m.store.get receiptID = some e) ∨
    ∃ id rec t result, lastFiled receiptID m'.log = some (id, rec) ∧ m'.store.get receiptID = some rec ∧
      m.runs.lookup id = some t ∧ t.ctl = .storing result := by
  rcases hs.store_cases with ⟨hstore, new, hlog, hnone⟩ | ⟨id, rec, t, result, hstore, hlog, hl, hctl⟩ |
    ⟨cut, hstore, hlog⟩ <;> rw [hstore, hlog, lastFiled_append]
  · exact .inl ⟨by rw [lastFiled_quiet hnone, Option.none_or], fun _ he => he⟩
  · rw [get_insert]
    by_cases hid : rec.id = receiptID
    · exact .inr ⟨id, rec, t, result, by simp [lastFiled, hid], if_pos hid.symm, hl, hctl⟩
    · refine .inl ⟨by simp [lastFiled, hid], fun e he => ?_⟩
      rwa [if_neg (Ne.symm hid)] at he
  · refine .inl ⟨?_, fun e he => (get_expire_eq_some.mp he).1⟩
    rw [lastFiled_quiet, Option.none_or]
    intro id rec hmem
    obtain ⟨e, he⟩ := eq_removed_of_mem hmem
    cases he

/-- Under an id a run has put a record under, the store holds at most the last of them. -/
def LastServed (m : RunManager X) : Prop :=
  ∀ receiptID id rec, lastFiled receiptID m.log = some (id, rec) →
    ∀ e, m.store.get receiptID = some e → e = rec

theorem LastServed.step {m m' : RunManager X} {a : ManagerAction} (h : LastServed m)
    (hs : ManagerStep m a m') : LastServed m' := by
  intro receiptID id rec hlast e he
  rcases hs.filed_cases receiptID with ⟨hsame, hget⟩ | ⟨id', rec', _, _, hnew, hget, _⟩
  · exact h receiptID id rec (hsame ▸ hlast) e (hget e he)
  · cases hnew.symm.trans hlast
    exact Option.some.inj (he.symm.trans hget)

/-- If the record last put under a receipt id is this run's, this is its text. -/
def RunManager.OwnText (m : RunManager X) (id receiptID : String) (text : GoText.Bytes) : Prop :=
  ∀ rec, lastFiled receiptID m.log = some (id, rec) → rec.bundleJSON = text

/-- **The invariant of the manager** that carries a run to its text. -/
structure Traceable (rn : Runner X) (store : ReceiptStore X) (m : RunManager X) : Prop where
  provenance : Provenance rn store m
  stored : Stored m
  served : LastServed m

theorem Traceable.step {rn : Runner X} {store : ReceiptStore X} {m m' : RunManager X} {a : ManagerAction}
    (h : Traceable rn store m) (hs : ManagerStep m a m') : Traceable rn store m' :=
  ⟨h.provenance.step hs, h.stored.step hs, h.served.step hs⟩

theorem Traceable.metrics {rn : Runner X} {store : ReceiptStore X} {m : RunManager X}
    (h : Traceable rn store m) (metrics : Metrics) : Traceable rn store { m with metrics := metrics } :=
  ⟨h.provenance.metrics metrics,
    ⟨h.stored.starting, h.stored.consistent, h.stored.keyed, h.stored.persisting, h.stored.put, h.stored.held⟩,
    h.served⟩

/-- A run that is complete stays complete. -/
theorem Traceable.completed {rn : Runner X} {store : ReceiptStore X} {m m' : RunManager X}
    {a : ManagerAction} (h : Traceable rn store m) (hs : ManagerStep m a m') {id receiptID : String}
    (hc : m.Completed id receiptID) : m'.Completed id receiptID := by
  obtain ⟨t, hl, hstate, hid⟩ := hc
  obtain ⟨t', hl', hadv⟩ := advances_step h.provenance.registry h.stored hs id t hl
  have hsnap := hadv.final (by rw [hstate]; rfl)
  exact ⟨t', hl', (congrArg Snapshot.state hsnap).trans hstate,
    (congrArg Snapshot.receiptID hsnap).trans hid⟩

/-- A run that is complete puts no further record. -/
theorem Traceable.ownText {rn : Runner X} {store : ReceiptStore X} {m m' : RunManager X} {a : ManagerAction}
    (h : Traceable rn store m) (hs : ManagerStep m a m') {id receiptID : String} {text : GoText.Bytes}
    (hc : m.Completed id receiptID) (ht : m.OwnText id receiptID text) : m'.OwnText id receiptID text := by
  intro rec hlast
  rcases hs.filed_cases receiptID with ⟨hsame, _⟩ | ⟨id', rec', t', result, hnew, _, hl', hctl⟩
  · exact ht rec (hsame ▸ hlast)
  · cases hnew.symm.trans hlast
    obtain ⟨t, hl, hstate, _⟩ := hc
    cases Option.some.inj (hl.symm.trans hl')
    have hstate' := (h.stored.consistent id t' hl').state
    rw [hctl, hstate] at hstate'
    cases hstate'

/-- What the store serves under a receipt id is the text of the run whose record was last put there. -/
theorem Traceable.served_ownText {rn : Runner X} {store : ReceiptStore X} {m : RunManager X}
    (h : Traceable rn store m) (id : String) {receiptID : String} {e : StoredRun X}
    (he : m.store.get receiptID = some e) : m.OwnText id receiptID e.bundleJSON := by
  intro rec hlast
  rw [h.served receiptID id rec hlast e he]

/-- The package the node returned to a run. -/
def Task.package (rn : Runner X) (t : Task X) : Option X.Package :=
  rn.returnedPackage t.post t.run.mode t.run.flow

/-- A run's record holds the text of the package the node returned to it. -/
theorem RecordOf.package {rn : Runner X} {t : Task X} {rec : StoredRun X} (h : RecordOf rn t rec) :
    ∃ pkg, t.package rn = some pkg ∧ X.marshalPackage pkg = .ok rec.bundleJSON := by
  obtain ⟨result, now, ⟨reply, verifiedAt, effs, hanswer, hrun⟩, hprep⟩ := h
  obtain ⟨run₀, receipt, _, hrun₀, _, _, rfl⟩ := prepare_eq_ok hprep
  cases hrun₀
  obtain ⟨hpkg, htext⟩ := run_ok_package hrun
  refine ⟨result.package, ?_, htext⟩
  have hpost : t.post = fun _ => reply := by unfold Task.post; rw [hanswer]; rfl
  rw [Task.package, hpost]
  exact hpkg

/-- The record a run has put, and its package. -/
theorem Traceable.package {rn : Runner X} {store : ReceiptStore X} {m : RunManager X}
    (h : Traceable rn store m) {id : String} {rec : StoredRun X} (hmem : .inserted id rec ∈ m.log) :
    ∃ t pkg, m.runs.lookup id = some t ∧ t.package rn = some pkg ∧
      X.marshalPackage pkg = .ok rec.bundleJSON := by
  obtain ⟨t, hl, _, hrec⟩ := h.provenance.traces.inserted id rec hmem
  rw [h.provenance.runner] at hrec
  obtain ⟨pkg, hpkg, htext⟩ := hrec.package
  exact ⟨t, pkg, hl, hpkg, htext⟩

/-! ## From the run to the answer of the agent endpoint -/

/-- What the stages of an agent's request say of its run. -/
def Request.Informed (m : RunManager X) (q : Request) : Prop :=
  match q.stage with
  | .fetching _ id receiptID => m.Completed id receiptID
  | .answered (.proof r) => m.Completed r.runID r.receiptID ∧ m.OwnText r.runID r.receiptID r.proof
  | _ => True

theorem Request.Informed.mono {m m' : RunManager X} {q : Request} (h : q.Informed m)
    (hcompleted : ∀ {id receiptID}, m.Completed id receiptID → m'.Completed id receiptID)
    (hown : ∀ {id receiptID text}, m.Completed id receiptID → m.OwnText id receiptID text →
      m'.OwnText id receiptID text) : q.Informed m' := by
  unfold Request.Informed at h ⊢
  split
  · rename_i hq; rw [hq] at h; exact hcompleted h
  · rename_i hq; rw [hq] at h; exact ⟨hcompleted h.1, hown h.1 h.2⟩
  · trivial

/-- What the run endpoints do alike says nothing of a completed run. -/
theorem beginRun_informed {kermitDisabled : String} {s s' : Server X} {q q' : Request} {now : Time}
    (h : s.beginRun kermitDisabled q now = some (s', q')) (m : RunManager X) : q'.Informed m := by
  unfold Server.beginRun at h
  split at h
  · split at h
    · rename_i r _
      cases h
      cases hr : r.counted <;> simp [Request.Informed, Request.goto, Refusal.reply]
    · cases h; trivial
  · cases h; trivial
  · cases h; simp [Request.Informed, Request.goto, Refusal.reply]
  · generalize s.limiter.allow now (clientKey q.http) = out at h
    obtain ⟨limiter, d⟩ := out
    cases h
    cases d.allowed <;> simp [Request.Informed]
  · cases h; trivial
  · cases h; trivial
  · obtain ⟨runs, _, he⟩ := Option.map_eq_some_iff.mp h; cases he; trivial
  · obtain ⟨runs, _, he⟩ := Option.map_eq_some_iff.mp h; cases he; trivial
  · obtain ⟨runs, _, he⟩ := Option.map_eq_some_iff.mp h; cases he; trivial
  · obtain ⟨runs, _, he⟩ := Option.map_eq_some_iff.mp h; cases he; trivial
  · cases h

/-- **What the handling of a request learns of its run**: a snapshot that is over and not failed shows a
    complete run, and what is then fetched has been put there by a run. -/
theorem handle_informed {rn : Runner X} {store : ReceiptStore X} {s s' : Server X} {q q' : Request}
    {now : Time} (hs : Traceable rn store s.runs) (hq : q.Informed s.runs)
    (h : s.handle q now = some (s', q')) : q'.Informed s'.runs := by
  unfold Server.handle at h
  split at h
  · unfold Server.handleCreateRun at h
    split at h
    · cases h; trivial
    · exact beginRun_informed h _
  · unfold Server.handleAgentRunFlow at h
    split at h
    · cases h; trivial
    · split at h
      · cases h
      · rename_i snap hsnap
        obtain ⟨t, hl, rfl⟩ := snapshot_eq_some.mp hsnap
        split at h
        · rename_i hterm
          split at h
          · cases h; trivial
          · rename_i hnot
            cases h
            refine ⟨t, hl, ?_, rfl⟩
            show t.run.state = .complete
            cases hstate : t.run.state with
            | complete => rfl
            | failed => exact absurd hstate hnot
            | created => rw [show t.run.snapshot.state = t.run.state from rfl, hstate] at hterm; cases hterm
            | running => rw [show t.run.snapshot.state = t.run.state from rfl, hstate] at hterm; cases hterm
        · split at h
          · cases h; trivial
          · cases h; exact hq
    · rename_i hc
      unfold Request.Informed at hq
      rw [hc] at hq
      split at h
      · cases h; trivial
      · rename_i stored hget
        cases h
        have hid : stored.id = _ := hs.stored.keyed _ stored hget
        refine ⟨?_, ?_⟩
        · show s.runs.Completed _ stored.id
          rw [hid]
          exact hq
        · show s.runs.OwnText _ stored.id stored.bundleJSON
          rw [hid]
          exact hs.served_ownText _ hget
    · exact beginRun_informed h _

/-- **The invariant of the server** that carries a run to what is offered for it. -/
structure Offering (rn : Runner X) (store : ReceiptStore X) (s : Serving X) : Prop where
  runs : Traceable rn store s.server.runs
  informed : ∀ q ∈ s.requests, q.Informed s.server.runs

/-- What a step of the machine keeps of the runs. -/
theorem Traceable.serving {rn : Runner X} {store : ReceiptStore X} {s s' : Serving X} {a : ServingAction}
    (h : Traceable rn store s.server.runs) (hs : ServingStep s a s') :
    Traceable rn store s'.server.runs ∧
      (∀ {id receiptID}, s.server.runs.Completed id receiptID → s'.server.runs.Completed id receiptID) ∧
      ∀ {id receiptID text}, s.server.runs.Completed id receiptID → s.server.runs.OwnText id receiptID text →
        s'.server.runs.OwnText id receiptID text := by
  rcases hs.manager with ⟨metrics, hruns⟩ | ⟨a, hm⟩
  · rw [hruns]
    exact ⟨h.metrics metrics, id, fun _ ht => ht⟩
  · exact ⟨h.step hm, h.completed hm, h.ownText hm⟩

theorem Offering.step {rn : Runner X} {store : ReceiptStore X} {s s' : Serving X} {a : ServingAction}
    (h : Offering rn store s) (hs : s.step a = some s') : Offering rn store s' := by
  obtain ⟨hruns, hcompleted, hown⟩ := h.runs.serving (serving_step hs)
  have hold : ∀ q ∈ s.requests, q.Informed s'.server.runs :=
    fun q hq => (h.informed q hq).mono hcompleted hown
  refine ⟨hruns, ?_⟩
  cases a with
  | receive endpoint http =>
      cases hs
      intro q hq
      rcases List.mem_append.mp hq with hq | hq
      · exact hold q hq
      · rw [List.mem_singleton.mp hq]; trivial
  | handle i now =>
      unfold Serving.step at hs
      dsimp only at hs
      split at hs
      · cases hs
      · rename_i q hq
        obtain ⟨⟨server, q'⟩, hhandle, he⟩ := Option.map_eq_some_iff.mp hs
        cases he
        intro u hu
        rcases List.mem_or_eq_of_mem_set hu with hu | rfl
        · exact hold u hu
        · exact handle_informed h.runs (h.informed q (List.mem_of_getElem? hq)) hhandle
  | leave i =>
      unfold Serving.step at hs
      dsimp only at hs
      split at hs
      · cases hs
      · split at hs
        · cases hs
          intro u hu
          rcases List.mem_or_eq_of_mem_set hu with hu | rfl
          · exact hold u hu
          · trivial
        · cases hs
  | run id a =>
      unfold Serving.step at hs
      dsimp only at hs
      split at hs
      · cases hs
      · obtain ⟨runs, _, he⟩ := Option.map_eq_some_iff.mp hs; cases he; exact hold
  | cleanup now =>
      unfold Serving.step at hs
      dsimp only at hs
      split at hs
      · cases hs
      · obtain ⟨runs, _, he⟩ := Option.map_eq_some_iff.mp hs; cases he; exact hold
  | verify now http => cases hs; exact hold
  | inc name =>
      unfold Serving.step at hs
      dsimp only at hs
      split at hs
      · cases hs; exact hold
      · cases hs

/-- What the server offers for a complete run: the bundle under its receipt id, and the proof in the answer
    to the agent that started it. -/
inductive Offered (D : UploadCodec X) (s : Serving X) (id : String) : GoText.Bytes → Prop where
  | bundle {receiptID : String} {reply : BundleReply} (hc : s.server.runs.Completed id receiptID)
      (hb : handleGetBundle s.server.runs.store receiptID = .ok reply) : Offered D s id reply.body
  | proof {q : Request} {r : AgentRunFlowResponse} (hq : q ∈ s.requests) (hs : q.stage = .answered (.proof r))
      (hid : r.runID = id) : Offered D s id (D.indentField r.proof)

/-- **What is offered for a run** is a text of its own package, as long as the record last put under its receipt
    id is its own. -/
theorem Offering.spells {rn : Runner X} {store : ReceiptStore X} {s : Serving X} (h : Offering rn store s)
    {D : UploadCodec X} {id : String} {text : GoText.Bytes} (ho : Offered D s id text) {t : Task X}
    (hl : s.server.runs.runs.lookup id = some t) {rec : StoredRun X}
    (hown : lastFiled t.run.receiptID s.server.runs.log = some (id, rec)) :
    t.run.state = .complete ∧ ∃ pkg, t.package rn = some pkg ∧ D.Spells pkg text := by
  obtain ⟨u, pkg, hu, hpkg, hmarshal⟩ := h.runs.package (mem_of_lastFiled hown).1
  cases Option.some.inj (hl.symm.trans hu)
  have hspells : ∀ {receiptID bundleJSON}, s.server.runs.Completed id receiptID →
      s.server.runs.OwnText id receiptID bundleJSON →
      (text = bundleJSON ∨ text = D.indentField bundleJSON) →
      t.run.state = .complete ∧ ∃ pkg, t.package rn = some pkg ∧ D.Spells pkg text := by
    rintro receiptID bundleJSON ⟨u, hu, hstate, rfl⟩ ht htext
    cases Option.some.inj (hl.symm.trans hu)
    rw [← ht rec hown] at htext
    exact ⟨hstate, pkg, hpkg, rec.bundleJSON, hmarshal, htext⟩
  cases ho with
  | bundle hc hb =>
      unfold handleGetBundle at hb
      split at hb
      · cases hb
      · rename_i e he
        cases hb
        exact hspells hc (h.runs.served_ownText id he) (.inl rfl)
  | proof hq hs hid =>
      have hinformed := h.informed _ hq
      unfold Request.Informed at hinformed
      rw [hs] at hinformed
      subst hid
      exact hspells hinformed.1 hinformed.2 (.inr rfl)

theorem offering_new {C : RunCodec X} {os : Disk} {cfg : Config} {files : FilePath.Files C.Data}
    {server : Server X} (hopen : newServer C os cfg files = .ok server) :
    ∃ store, Offering (.new X cfg.runFlowEndpoint cfg.kermitAvailable) store (Serving.new server) := by
  unfold newServer at hopen
  split at hopen
  · cases hopen
  · rename_i store hstore
    cases hopen
    refine ⟨store, ⟨provenance_new _ store, stored_new _ hstore, ?_⟩, fun q hq => absurd hq List.not_mem_nil⟩
    intro receiptID id rec hlast
    cases hlast

/-! ## The verdict that comes back -/

/-- The verdict of a run's own verification, on this package. -/
def Task.verdict (rn : Runner X) (t : Task X) (pkg : X.Package) : Bool :=
  X.verified (X.verify pkg (rn.verifyOptions t.run.mode))

/-- An anonymous run verifies offline, as `POST /api/verify` does. -/
theorem verdict_anonymous {rn : Runner X} {t : Task X} (h : t.run.mode = modeAnonymous) (pkg : X.Package) :
    t.verdict rn pkg = X.verified (X.verify pkg (offline X)) := by
  unfold Task.verdict Runner.verifyOptions offline
  rw [h, if_neg (by decide)]

/-- **Run then verify closes the loop**, up to the upload bound. A server starts with any configuration and
    serves anything; an anonymous run of it is complete, the record last put under its receipt id is its own, and
    the server offers a text for it, its bundle or the proof in the answer to its agent. Later that text is
    posted for verification, and the limiter admits the request. The answer is 400 beyond the upload bound, and
    else 200 with the verdict of the run's own verification. -/
theorem verify_closes_loop {D : UploadCodec X} (hD : D.Lawful) {C : RunCodec X} {os : Disk}
    {cfg : Config} {files : FilePath.Files C.Data} {server : Server X}
    (hopen : newServer C os cfg files = .ok server) {before later : List ServingAction} {s u : Serving X}
    (h : exec Serving.step (Serving.new server) before = some s) (hlater : exec Serving.step s later = some u)
    {id : String} {t : Task X} (hl : s.server.runs.runs.lookup id = some t)
    (hmode : t.run.mode = modeAnonymous) {rec : StoredRun X}
    (hown : lastFiled t.run.receiptID s.server.runs.log = some (id, rec)) {now : Time} {r : HttpRequest}
    (hoffered : Offered D s id r.body)
    (hadmitted : (u.server.limiter.allow now (clientKey r)).2.allowed = true) :
    t.run.state = .complete ∧
      ∃ pkg, t.package (.new X cfg.runFlowEndpoint cfg.kermitAvailable) = some pkg ∧
      (r.body.length ≤ defaultMaxUploadBytes → ∃ reply, (u.server.handleVerify D now r).2 = .ok reply ∧
        reply.verified = t.verdict (.new X cfg.runFlowEndpoint cfg.kermitAvailable) pkg) ∧
      (defaultMaxUploadBytes < r.body.length →
        (u.server.handleVerify D now r).2 = .error (400, "invalid portable evidence package JSON")) := by
  obtain ⟨store, hnew⟩ := offering_new hopen
  have hs : Offering (.new X cfg.runFlowEndpoint cfg.kermitAvailable) store s :=
    exec_invariant (fun _ _ _ hi hs => hi.step hs) before hnew h
  have hguard : u.server.guard = newAbuseGuard :=
    (exec_invariant (fun _ _ _ hi hs => hi.step (serving_step hs)) later
      (exec_invariant (fun _ _ _ hi hs => hi.step (serving_step hs)) before (admitted_new hopen) h)
      hlater : Admitted cfg u).guard
  obtain ⟨hstate, pkg, hpkg, hspells⟩ := hs.spells hoffered hl hown
  obtain ⟨hfits, hexceeds⟩ := handleVerify_admitted hD hadmitted hspells
  rw [hguard] at hfits hexceeds
  refine ⟨hstate, pkg, hpkg, fun hn => ?_, fun hlarge => hexceeds (Nat.not_le_of_lt hlarge)⟩
  rw [verdict_anonymous hmode]
  exact hfits hn

/-! ## A codec to compute with -/

/-- Each byte of a payload behind a one, then a zero. -/
def encodePayload (payload : GoText.Bytes) : GoText.Bytes := payload.flatMap (fun b => [1, b]) ++ [0]

def decodePayload : GoText.Bytes → Option GoText.Bytes
  | [] => none
  | tag :: rest =>
    if tag = 0 then some []
    else
      match rest with
      | [] => none
      | b :: rest => (decodePayload rest).map (b :: ·)

theorem encodePayload_cons (b : UInt8) (payload : GoText.Bytes) :
    encodePayload (b :: payload) = 1 :: b :: encodePayload payload := rfl

theorem decodePayload_encode (payload : GoText.Bytes) :
    decodePayload (encodePayload payload) = some payload := by
  induction payload with
  | nil => rfl
  | cons b payload ih => rw [encodePayload_cons, decodePayload, if_neg (by decide), ih]; rfl

/-- A text that breaks off does not decode. -/
theorem decodePayload_take (payload : GoText.Bytes) {n : Nat} (h : n < (encodePayload payload).length) :
    decodePayload ((encodePayload payload).take n) = none := by
  induction payload generalizing n with
  | nil =>
      have hn : n = 0 := by simpa [encodePayload] using h
      rw [hn]
      rfl
  | cons b payload ih =>
      rw [encodePayload_cons] at h ⊢
      match n with
      | 0 => rfl
      | 1 => rfl
      | n + 2 =>
          have hn : n < (encodePayload payload).length := by simpa using h
          rw [List.take_succ_cons, List.take_succ_cons, decodePayload, if_neg (by decide), ih hn]
          rfl

theorem length_encodePayload (payload : GoText.Bytes) :
    (encodePayload payload).length = 2 * payload.length + 1 := by
  simp [encodePayload, List.length_flatMap, Nat.mul_comm]

/-- The stand-in, with such a text for its packages; every answer of its node carries this payload. -/
abbrev uploadX (payload : GoText.Bytes) : Externals :=
  { Externals.sample fun _ => .ok (sampleResponse "L3" payload) with
    marshalPackage := fun pkg => .ok (pkg.exportHash.toList ++ encodePayload pkg.bundleData) }

/-- Its texts stay as they are inside another one. -/
def sampleUpload (payload : GoText.Bytes) : UploadCodec (uploadX payload) where
  decodePackage text :=
    if h : (text.take 32).length = 32 then
      (decodePayload (text.drop 32)).map fun payload => { exportHash := ⟨text.take 32, h⟩, bundleData := payload }
    else none
  indentField text := text

theorem sampleUpload_lawful (payload : GoText.Bytes) : (sampleUpload payload).Lawful := by
  have hhash : ∀ h : Hash, h.toList.length = 32 := fun h => h.toList_length
  have htext : ∀ {pkg : SamplePackage} {text}, (sampleUpload payload).Spells pkg text →
      text = pkg.exportHash.toList ++ encodePayload pkg.bundleData := by
    rintro pkg text ⟨bundleJSON, hb, rfl | rfl⟩ <;> cases hb <;> rfl
  constructor
  · rintro pkg text h
    have htake : text.take 32 = pkg.exportHash.toList := by rw [htext h, List.take_left' (hhash _)]
    have hdrop : text.drop 32 = encodePayload pkg.bundleData := by rw [htext h, List.drop_left' (hhash _)]
    unfold sampleUpload
    dsimp only
    rw [dif_pos (by rw [htake]; exact hhash _), hdrop, decodePayload_encode]
    exact congrArg some (congrArg (SamplePackage.mk · _) (Subtype.ext htake))
  · intro pkg text h n hn
    have hdrop : text.drop 32 = encodePayload pkg.bundleData := by rw [htext h, List.drop_left' (hhash _)]
    unfold sampleUpload
    dsimp only
    by_cases hlt : n < 32
    · -- not even the hash is there
      rw [dif_neg]
      rw [List.length_take, List.length_take]
      omega
    · have hlen : text.length = 32 + (encodePayload pkg.bundleData).length := by
        rw [htext h, List.length_append, hhash]
      have hpayload : decodePayload ((text.take n).drop 32) = none := by
        rw [List.drop_take, hdrop]
        exact decodePayload_take _ (by omega)
      split
      · rw [hpayload]; rfl
      · rfl

/-- Every package this node returns has its payload. -/
theorem payload_of_returned {payload : GoText.Bytes} {rn : Runner (uploadX payload)}
    {post : NodeCall → NodeReply} {mode : Mode} {flow : String} {pkg : SamplePackage}
    (h : rn.returnedPackage post mode flow = some pkg) : pkg.bundleData = payload := by
  obtain ⟨_, effs, resp, hc, hp⟩ := returnedPackage_eq_some.mp h
  unfold Runner.callRunFlow at hc
  split at hc
  · cases hc
  · have hresp := congrArg Prod.snd hc
    unfold decodeReply at hresp
    dsimp only at hresp
    split at hresp
    · cases hresp
    · split at hresp
      · cases hresp
      · cases hresp
        cases hp
        rfl

/-- A server of this stand-in, after one anonymous run. -/
def uploadServer (payload : GoText.Bytes) : Option (Serving (uploadX payload)) :=
  (newServer (sampleCodec (uploadX payload)) .ok defaultConfig ∅).toOption.bind
    fun server => exec Serving.step (Serving.new server) completedTraffic

/-- The upload of a text, from another port of the client's. -/
def uploadRequest (text : GoText.Bytes) : HttpRequest := ⟨text, "", "192.0.2.1:40001"⟩

theorem clientKey_upload (text : GoText.Bytes) : clientKey (uploadRequest text) = "192.0.2.1" := by
  unfold clientKey uploadRequest
  dsimp only
  decide +kernel

/-- What the run of such a server has come to: the run, whether its record is served, whose it is, and whether
    its client is admitted again. -/
def uploadOutcome (payload : GoText.Bytes) :
    Option (Option (Mode × RunState × String) × Bool × Option String × Bool) :=
  (uploadServer payload).map fun s =>
    ((s.server.runs.runs.lookup "run-1").map fun t => (t.run.mode, t.run.state, t.run.receiptID),
      (s.server.runs.store.get sampleShareID).isSome,
      (lastFiled sampleShareID s.server.runs.log).map Prod.fst, (s.server.limiter.allow 2 "192.0.2.1").2.allowed)

/-- It is complete, its own record is served, and its client is admitted. -/
def uploadable : Option (Option (Mode × RunState × String) × Bool × Option String × Bool) :=
  some (some (modeAnonymous, .complete, sampleShareID), true, some "run-1", true)

/-- If the run is complete, its bundle is offered, and its upload will be admitted. -/
theorem uploadServer_offers {payload : GoText.Bytes}
    (h : uploadOutcome payload = uploadable) :
    ∃ server s t rec text, uploadServer payload = some s ∧
      newServer (sampleCodec (uploadX payload)) .ok defaultConfig ∅ = .ok server ∧
      exec Serving.step (Serving.new server) completedTraffic = some s ∧
      s.server.runs.runs.lookup "run-1" = some t ∧ t.run.mode = modeAnonymous ∧
      lastFiled t.run.receiptID s.server.runs.log = some ("run-1", rec) ∧
      Offered (sampleUpload payload) s "run-1" text ∧
      (s.server.limiter.allow 2 (clientKey (uploadRequest text))).2.allowed = true := by
  obtain ⟨s, hs, hout⟩ := Option.map_eq_some_iff.mp h
  obtain ⟨server, hopen, hexec⟩ := Option.bind_eq_some_iff.mp hs
  obtain ⟨hrun, hserved, hlast, hadmitted⟩ : _ ∧ _ ∧ _ ∧ _ := ⟨congrArg Prod.fst hout,
    congrArg (fun o => o.2.1) hout, congrArg (fun o => o.2.2.1) hout, congrArg (fun o => o.2.2.2) hout⟩
  obtain ⟨t, ht, htriple⟩ := Option.map_eq_some_iff.mp hrun
  obtain ⟨rec, hrec⟩ := Option.isSome_iff_exists.mp hserved
  obtain ⟨⟨_, own⟩, hown, rfl⟩ := Option.map_eq_some_iff.mp hlast
  have hid : t.run.receiptID = sampleShareID := congrArg (fun o => o.2.2) htriple
  have hcompleted : s.server.runs.Completed "run-1" sampleShareID :=
    ⟨t, ht, congrArg (fun o => o.2.1) htriple, hid⟩
  obtain ⟨reply, hbundle⟩ : ∃ reply, handleGetBundle s.server.runs.store sampleShareID = .ok reply :=
    ⟨_, by rw [handleGetBundle, hrec]⟩
  exact ⟨server, s, t, own, reply.body, hs, congrArg Except.ok (Option.some.inj hopen), hexec, ht,
    congrArg Prod.fst htriple, by rw [hid]; exact hown,
    .bundle hcompleted hbundle, by rw [clientKey_upload]; exact hadmitted⟩

/-- A text of a package of this node: 32 bytes of hash, and more than two bytes for each of the payload's. -/
theorem length_of_spells {payload text : GoText.Bytes} {pkg : SamplePackage}
    (h : (sampleUpload payload).Spells pkg text) (hpkg : pkg.bundleData = payload) :
    text.length = 32 + (2 * payload.length + 1) := by
  obtain ⟨bundleJSON, hb, htext⟩ := h
  have htext : text = bundleJSON := htext.elim id id
  cases hb
  rw [htext, List.length_append, length_encodePayload, hpkg]
  exact congrArg (· + _) pkg.exportHash.toList_length

/-- The bundle of a payload of the size of the upload bound is answered 400. -/
theorem large_upload_rejected {payload : GoText.Bytes} (hlarge : defaultMaxUploadBytes ≤ payload.length)
    (h : uploadOutcome payload = uploadable) :
    ∃ server s t rec text, newServer (sampleCodec (uploadX payload)) .ok defaultConfig ∅ = .ok server ∧
      exec Serving.step (Serving.new server) completedTraffic = some s ∧
      s.server.runs.runs.lookup "run-1" = some t ∧ t.run.mode = modeAnonymous ∧ t.run.state = .complete ∧
      lastFiled t.run.receiptID s.server.runs.log = some ("run-1", rec) ∧
      Offered (sampleUpload payload) s "run-1" text ∧
      (s.server.limiter.allow 2 (clientKey (uploadRequest text))).2.allowed = true ∧
      (s.server.handleVerify (sampleUpload payload) 2 (uploadRequest text)).2
        = .error (400, "invalid portable evidence package JSON") := by
  obtain ⟨server, s, t, rec, text, _, hopen, hexec, hl, hmode, hown, hoffered, hadmitted⟩ := uploadServer_offers h
  refine ⟨server, s, t, rec, text, hopen, hexec, hl, hmode, ?_⟩
  obtain ⟨store, hnew⟩ := offering_new hopen
  have hs := exec_invariant (fun _ _ _ hi hs => Offering.step hi hs) _ hnew hexec
  have hguard : s.server.guard = newAbuseGuard :=
    (exec_invariant (fun _ _ _ hi hs => hi.step (serving_step hs)) _ (admitted_new hopen) hexec :
      Admitted defaultConfig s).guard
  obtain ⟨hstate, pkg, hpkg, hspells⟩ := hs.spells hoffered hl hown
  refine ⟨hstate, hown, hoffered, hadmitted, ?_⟩
  refine (handleVerify_admitted (sampleUpload_lawful _) hadmitted hspells).2 ?_
  have hlen : text.length = _ := length_of_spells hspells (payload_of_returned hpkg)
  rw [hguard]
  show ¬ text.length ≤ defaultMaxUploadBytes
  omega

/-- A payload of the size of the upload bound. -/
@[irreducible] def largePayload : GoText.Bytes := List.replicate defaultMaxUploadBytes 0x7B

theorem length_largePayload : largePayload.length = defaultMaxUploadBytes := by
  unfold largePayload
  exact List.length_replicate

/-- The node returns a package beyond the upload bound: its run completes, its own bundle is served, and the upload
    of that bundle is answered 400. -/
theorem large_bundle_rejected : (sampleUpload largePayload).Lawful ∧ ∃ server s t rec text,
    newServer (sampleCodec (uploadX largePayload)) .ok defaultConfig ∅ = .ok server ∧
    exec Serving.step (Serving.new server) completedTraffic = some s ∧
    s.server.runs.runs.lookup "run-1" = some t ∧ t.run.mode = modeAnonymous ∧ t.run.state = .complete ∧
    lastFiled t.run.receiptID s.server.runs.log = some ("run-1", rec) ∧
    Offered (sampleUpload largePayload) s "run-1" text ∧
    (s.server.limiter.allow 2 (clientKey (uploadRequest text))).2.allowed = true ∧
    (s.server.handleVerify (sampleUpload largePayload) 2 (uploadRequest text)).2
      = .error (400, "invalid portable evidence package JSON") :=
  ⟨sampleUpload_lawful _, large_upload_rejected (Nat.le_of_eq length_largePayload.symm) (by decide +kernel)⟩

/-- A small package: what comes back is the run's own verdict. -/
theorem verify_closes_loop_sample : ∃ s t text pkg reply, uploadServer [0x7B, 0x7D] = some s ∧
    s.server.runs.runs.lookup "run-1" = some t ∧
    (s.server.handleVerify (sampleUpload _) 2 (uploadRequest text)).2 = .ok reply ∧
    reply.verified = t.verdict (.new (uploadX [0x7B, 0x7D]) defaultConfig.runFlowEndpoint false) pkg := by
  have hout : uploadOutcome [0x7B, 0x7D] = uploadable := by decide +kernel
  obtain ⟨server, s, t, rec, text, hserver, hopen, hexec, hl, hmode, hown, hoffered, hadmitted⟩ :=
    uploadServer_offers hout
  obtain ⟨_, pkg, hpkg, hfits, _⟩ :=
    verify_closes_loop (sampleUpload_lawful _) hopen hexec (exec_nil ..) hl hmode hown
      (r := uploadRequest text) hoffered hadmitted
  have hlen : text.length ≤ defaultMaxUploadBytes := by
    obtain ⟨store, hnew⟩ := offering_new hopen
    have hs := exec_invariant (fun _ _ _ hi hs => Offering.step hi hs) _ hnew hexec
    obtain ⟨_, pkg', hpkg', hspells⟩ := hs.spells hoffered hl hown
    rw [length_of_spells hspells (payload_of_returned hpkg')]
    decide
  obtain ⟨reply, hreply, hverified⟩ := hfits hlen
  exact ⟨s, t, text, pkg, reply, hserver, hl, hreply, hverified⟩

end Api
end InfrixPlayground
