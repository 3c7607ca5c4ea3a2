import InfrixPlayground.Api.Receipts
import InfrixPlayground.Lib.Machine

/-!
# `Api.StoreSys` — concurrent callers of one store

The atomic steps of concurrent `Put` and `Cleanup` calls: the map under the lock, the files one by one
after it. `StoreStep` says once what a step can do. Memory and disk agree in a quiet state whenever the
file steps on each id were taken in the order of the map steps that caused them
(`agree_of_inOrder`); nothing in the store enforces that order, and a write that is overtaken leaves the
two apart.
-/

namespace InfrixPlayground
namespace Api

open FilePath Machine

variable {X : Externals} {C : RunCodec X}

/-- What an operation that has left the lock has still to do: write a run's file and return, or remove
    the file of an expired run. -/
inductive PendingOp (X : Externals) where
  | write (run : StoredRun X)
  | remove (id : String)

/-- The id whose file an operation touches. -/
def PendingOp.target : PendingOp X → String
  | .write run => run.id
  | .remove id => id

/-- A store, its directory's files, and the operations in progress, in the order of their map steps. -/
structure StoreSys (C : RunCodec X) where
  store : ReceiptStore X
  files : Files C.Data
  pending : List (PendingOp X)

/-- The atomic steps: a `Put` or a `Cleanup` under the lock (after reading the clock), and the file step
    of the `i`-th operation in progress. -/
inductive StoreAction (X : Externals) where
  | put (run : StoredRun X) (now : Time)
  | cleanup (now : Time) (maxAge : Duration)
  | finish (i : Nat) (os : Disk)

/-- One step; a `finish` needs an operation in progress. -/
def StoreSys.step (s : StoreSys C) : StoreAction X → Option (StoreSys C)
  | .put run now =>
    match StoredRun.prepare now (some run) with
    | .error _ => some s
    | .ok run => some { s with store := s.store.insert run, pending := s.pending ++ [.write run] }
  | .cleanup now maxAge =>
    let removed := s.store.expired (cutoff now maxAge)
    some { s with
      store := s.store.expire (cutoff now maxAge)
      pending := s.pending ++ if s.store.dir ≠ "" then removed.map .remove else [] }
  | .finish i os =>
    match s.pending[i]? with
    | none => none
    | some (.remove id) =>
      some { s with files := s.store.removeFile os id s.files, pending := s.pending.eraseIdx i }
    | some (.write run) =>
      if s.store.dir ≠ "" then
        some { s with
          files := (s.store.persist C os run s.files).1
          pending := s.pending.eraseIdx i }
      else some { s with pending := s.pending.eraseIdx i }

/-- What a step can do. -/
inductive StoreStep (s : StoreSys C) : StoreAction X → StoreSys C → Prop where
  | refused {run : StoredRun X} {now : Time} {e : String}
      (hp : StoredRun.prepare now (some run) = .error e) : StoreStep s (.put run now) s
  | put {run rec : StoredRun X} {now : Time} (hp : StoredRun.prepare now (some run) = .ok rec) :
      StoreStep s (.put run now)
        { s with store := s.store.insert rec, pending := s.pending ++ [.write rec] }
  | cleanup {now : Time} {maxAge : Duration} :
      StoreStep s (.cleanup now maxAge) { s with
        store := s.store.expire (cutoff now maxAge)
        pending := s.pending ++
          if s.store.dir ≠ "" then (s.store.expired (cutoff now maxAge)).map .remove else [] }
  | removed {i : Nat} {os : Disk} {id : String} (hi : s.pending[i]? = some (.remove id)) :
      StoreStep s (.finish i os)
        { s with files := s.store.removeFile os id s.files, pending := s.pending.eraseIdx i }
  | wrote {i : Nat} {os : Disk} {run : StoredRun X} (hi : s.pending[i]? = some (.write run))
      (hd : s.store.dir ≠ "") :
      StoreStep s (.finish i os) { s with
        files := (s.store.persist C os run s.files).1
        pending := s.pending.eraseIdx i }
  | returned {i : Nat} {os : Disk} {run : StoredRun X} (hi : s.pending[i]? = some (.write run))
      (hd : s.store.dir = "") :
      StoreStep s (.finish i os) { s with pending := s.pending.eraseIdx i }

theorem store_step {s s' : StoreSys C} {a : StoreAction X} (h : s.step a = some s') :
    StoreStep s a s' := by
  cases a with
  | put run now =>
      cases hp : StoredRun.prepare now (some run) with
      | error e => simp only [StoreSys.step, hp] at h; cases h; exact .refused hp
      | ok rec => simp only [StoreSys.step, hp] at h; cases h; exact .put hp
  | cleanup now maxAge => cases h; exact .cleanup
  | finish i os =>
      cases hi : s.pending[i]? with
      | none => simp [StoreSys.step, hi] at h
      | some op =>
          cases op with
          | remove id => simp only [StoreSys.step, hi] at h; cases h; exact .removed hi
          | write run =>
              simp only [StoreSys.step, hi] at h
              split at h
              · rename_i hd; cases h; exact .wrote hi hd
              · rename_i hd; cases h; exact .returned hi (not_not.mp hd)

/-! ## Memory and disk -/

/-- Memory and disk hold the same runs: an id has a file exactly when the map has it, and the file is
    the encoding of the run in the map. -/
structure StoreSys.Agree (s : StoreSys C) : Prop where
  file_iff_run : ∀ id, PlainId id → (s.store.diskPath id ∈ s.files ↔ (s.store.get id).isSome)
  holds_run : ∀ id run, s.store.get id = some run → PlainId id ∧
    ∃ data, C.marshalIndent run = .ok data ∧ s.files.lookup (s.store.diskPath id) = some data

/-- The disk side of the step succeeds: a run that is put can be encoded under an id that names a file,
    and the operating system reports no error. -/
def Succeeds (C : RunCodec X) : StoreAction X → Prop
  | .put run now => PlainId run.id ∧
      ∀ rec, StoredRun.prepare now (some run) = .ok rec → ∃ data, C.marshalIndent rec = .ok data
  | .cleanup _ _ => True
  | .finish _ os => os = .ok

/-- No operation takes its file step before an earlier one on the same id. -/
def StoreSys.InOrder (s : StoreSys C) : StoreAction X → Prop
  | .finish i _ => ∀ j op op', j < i → s.pending[j]? = some op → s.pending[i]? = some op' →
      op.target ≠ op'.target
  | _ => True

/-- What an operation in progress leaves in its file. -/
def PendingOp.leaves (C : RunCodec X) : PendingOp X → Option C.Data
  | .write run => (C.marshalIndent run).toOption
  | .remove _ => none

/-- What an operation in progress will make of the file of `id`. -/
def fileAfter (C : RunCodec X) (id : String) (file : Option C.Data) (op : PendingOp X) :
    Option C.Data :=
  if op.target = id then op.leaves C else file

theorem fileAfter_self {id : String} {op : PendingOp X} (h : op.target = id) (file : Option C.Data) :
    fileAfter C id file op = op.leaves C :=
  if_pos h

theorem fileAfter_ne {id : String} {op : PendingOp X} (h : op.target ≠ id) (file : Option C.Data) :
    fileAfter C id file op = file :=
  if_neg h

/-- The file of `id` once every operation in progress has taken its file step, in order. -/
def StoreSys.eventually (s : StoreSys C) (id : String) : Option C.Data :=
  s.pending.foldl (fileAfter C id) (s.files.lookup (s.store.diskPath id))

/-- **The invariant.** What the files will be once the operations in progress are through is what the
    map is now. -/
structure StoreSys.InStep (s : StoreSys C) : Prop where
  dir_ne : s.store.dir ≠ ""
  plain : ∀ id run, s.store.get id = some run → PlainId id
  encodes : ∀ id run, s.store.get id = some run → ∃ data, C.marshalIndent run = .ok data
  pending_plain : ∀ op ∈ s.pending, PlainId op.target
  pending_encodes : ∀ run, .write run ∈ s.pending → ∃ data, C.marshalIndent run = .ok data
  eventually_eq : ∀ id, PlainId id →
    s.eventually id = (s.store.get id).bind fun run => (C.marshalIndent run).toOption

/-- **Taking one operation out of the line.** If no earlier operation is on its id, an operation may act
    at once: what the file becomes in the end is the same. -/
theorem foldl_eraseIdx {id : String} : ∀ (ops : List (PendingOp X)) (i : Nat) (op : PendingOp X)
    (file : Option C.Data), ops[i]? = some op →
    (∀ j op', j < i → ops[j]? = some op' → op'.target ≠ op.target) →
      ops.foldl (fileAfter C id) file
        = (ops.eraseIdx i).foldl (fileAfter C id) (fileAfter C id file op) := by
  intro ops
  induction ops with
  | nil => intro i op file hi; simp at hi
  | cons head ops ih =>
      intro i op file hi hfirst
      cases i with
      | zero => rw [List.getElem?_cons_zero] at hi; cases hi; rfl
      | succ i =>
          rw [List.getElem?_cons_succ] at hi
          have hne : head.target ≠ op.target := hfirst 0 head (Nat.succ_pos i) rfl
          -- operations on different ids commute, so `op` can be moved past `head`
          have hcomm : fileAfter C id (fileAfter C id file head) op
              = fileAfter C id (fileAfter C id file op) head := by
            by_cases h : op.target = id
            · rw [fileAfter_self h, fileAfter_self h, fileAfter_ne fun he => hne (he.trans h.symm)]
            · rw [fileAfter_ne h, fileAfter_ne h]
          rw [List.eraseIdx_cons_succ, List.foldl_cons, List.foldl_cons, ← hcomm]
          exact ih i op _ hi fun j op' hj hop' => hfirst (j + 1) op' (Nat.succ_lt_succ hj)
            (by rw [List.getElem?_cons_succ]; exact hop')

/-- Among removals, the file of `id` survives those of other ids. -/
theorem foldl_remove (C : RunCodec X) (id : String) : ∀ (ids : List String) (file : Option C.Data),
    (ids.map PendingOp.remove).foldl (fileAfter C id) file = if id ∈ ids then none else file := by
  intro ids
  induction ids with
  | nil => intro file; rw [if_neg List.not_mem_nil]; rfl
  | cons head ids ih =>
      intro file
      rw [List.map_cons, List.foldl_cons, ih]
      by_cases hmem : id ∈ ids
      · rw [if_pos hmem, if_pos (List.mem_cons_of_mem head hmem)]
      · rw [if_neg hmem]
        by_cases hid : (PendingOp.remove head : PendingOp X).target = id
        · rw [fileAfter_self hid, if_pos (hid ▸ List.mem_cons_self ..)]; rfl
        · have hnot : id ∉ head :: ids := by
            intro h
            rcases List.mem_cons.mp h with he | h
            · exact hid he.symm
            · exact hmem h
          rw [fileAfter_ne hid, if_neg hnot]

/-- **The file step of an operation.** It does to every file what `fileAfter` says of it. -/
theorem lookup_fileStep {s s' : StoreSys C} (hs : s.InStep) {i : Nat} {op : PendingOp X}
    (hi : s.pending[i]? = some op) (h : StoreStep s (.finish i .ok) s') :
    s'.store = s.store ∧ s'.pending = s.pending.eraseIdx i ∧
      ∀ id, PlainId id → s'.files.lookup (s.store.diskPath id)
        = fileAfter C id (s.files.lookup (s.store.diskPath id)) op := by
  have hmem : op ∈ s.pending := List.mem_of_getElem? hi
  have hpath : ∀ id, PlainId id → s.store.diskPath id = s.store.diskPath op.target →
      op.target = id := fun id hp he => (diskPath_inj hs.dir_ne hp (hs.pending_plain op hmem) he).symm
  cases h with
  | @removed _ _ target hi' =>
      cases Option.some.inj (hi'.symm.trans hi)
      refine ⟨rfl, rfl, fun id hp => ?_⟩
      show (s.files.erase (s.store.diskPath target)).lookup _ = _
      by_cases hid : (PendingOp.remove target : PendingOp X).target = id
      · rw [fileAfter_self hid, ← hid]; exact AList.lookup_erase ..
      · rw [fileAfter_ne hid]; exact AList.lookup_erase_ne fun he => hid (hpath id hp he)
  | @wrote _ _ run hi' hd =>
      cases Option.some.inj (hi'.symm.trans hi)
      obtain ⟨data, hdata⟩ := hs.pending_encodes run hmem
      refine ⟨rfl, rfl, fun id hp => ?_⟩
      -- nothing fails: the run was encodable when it was put, and the system reports no error
      have hw : (s.store.persist C .ok run s.files).1 = s.files.insert (s.store.diskPath run.id) data := by
        simp only [ReceiptStore.persist, hdata, Disk.ok]
      show (s.store.persist C .ok run s.files).1.lookup _ = _
      rw [hw]
      by_cases hid : (PendingOp.write run).target = id
      · rw [fileAfter_self hid, ← hid, PendingOp.leaves, hdata]; exact AList.lookup_insert ..
      · rw [fileAfter_ne hid]; exact AList.lookup_insert_ne fun he => hid (hpath id hp he)
  | @returned _ _ run hi' hd => exact absurd hd hs.dir_ne

/-- **A put under the lock**: its write is in the line. -/
theorem StoreSys.InStep.put {s : StoreSys C} (hs : s.InStep) {rec : StoredRun X} (hplain : PlainId rec.id)
    (henc : ∃ data, C.marshalIndent rec = .ok data) :
    StoreSys.InStep { s with store := s.store.insert rec, pending := s.pending ++ [.write rec] } := by
  refine ⟨hs.dir_ne, ?_, ?_, ?_, ?_, ?_⟩
  · intro id r hr
    rw [get_insert] at hr
    split at hr
    · rename_i hid; exact hid ▸ hplain
    · exact hs.plain id r hr
  · intro id r hr
    rw [get_insert] at hr
    split at hr
    · cases hr; exact henc
    · exact hs.encodes id r hr
  · intro op hop
    rcases List.mem_append.mp hop with hop | hop
    · exact hs.pending_plain op hop
    · rw [List.mem_singleton.mp hop]; exact hplain
  · intro r hr
    rcases List.mem_append.mp hr with hr | hr
    · exact hs.pending_encodes r hr
    · cases List.mem_singleton.mp hr; exact henc
  · intro id hid
    show (s.pending ++ [PendingOp.write rec]).foldl (fileAfter C id) _ = _
    rw [List.foldl_append, List.foldl_cons, List.foldl_nil, get_insert]
    by_cases he : id = rec.id
    · have heq : (PendingOp.write rec).target = id := he.symm
      rw [if_pos he, fileAfter_self heq]; rfl
    · have hne : (PendingOp.write rec).target ≠ id := fun h => he h.symm
      rw [if_neg he, fileAfter_ne hne]; exact hs.eventually_eq id hid

/-- **A cleanup under the lock**: the removals of what it expired are in the line. -/
theorem StoreSys.InStep.cleanup {s : StoreSys C} (hs : s.InStep) (cut : Time) :
    StoreSys.InStep { s with
      store := s.store.expire cut
      pending := s.pending ++ if s.store.dir ≠ "" then (s.store.expired cut).map .remove else [] } := by
  refine ⟨hs.dir_ne, ?_, ?_, ?_, ?_, ?_⟩
  · intro id r hr; exact hs.plain id r (get_expire_eq_some.mp hr).1
  · intro id r hr; exact hs.encodes id r (get_expire_eq_some.mp hr).1
  · intro op hop
    rw [if_pos hs.dir_ne] at hop
    rcases List.mem_append.mp hop with hop | hop
    · exact hs.pending_plain op hop
    · obtain ⟨id, hid, rfl⟩ := List.mem_map.mp hop
      obtain ⟨r, hr, _⟩ := mem_expired.mp hid
      exact hs.plain id r hr
  · intro r hr
    rw [if_pos hs.dir_ne] at hr
    rcases List.mem_append.mp hr with hr | hr
    · exact hs.pending_encodes r hr
    · obtain ⟨id, _, hid⟩ := List.mem_map.mp hr; exact absurd hid (by simp)
  · intro id hid
    show (s.pending ++ if _ then _ else _).foldl (fileAfter C id) _ = _
    rw [if_pos hs.dir_ne, List.foldl_append, foldl_remove, get_expire]
    have hev : s.pending.foldl (fileAfter C id) (s.files.lookup (s.store.diskPath id))
        = (s.store.get id).bind fun run => (C.marshalIndent run).toOption :=
      hs.eventually_eq id hid
    cases hget : s.store.get id with
    | none =>
        rw [if_neg (fun hm => by obtain ⟨r, hr, _⟩ := mem_expired.mp hm; simp [hget] at hr)]
        rw [hget] at hev; exact hev
    | some r =>
        rw [hget] at hev
        by_cases hold : r.createdAt < cut
        · rw [if_pos (mem_expired.mpr ⟨r, hget, hold⟩)]; simp [Option.filter_some, hold]
        · rw [if_neg (fun hm => by
            obtain ⟨r', hr', hold'⟩ := mem_expired.mp hm
            rw [hget] at hr'; cases hr'; exact hold hold')]
          rw [Option.filter_some, if_pos (by simp [hold])]
          exact hev

/-- **A file step** that is in order takes one operation out of the line. -/
theorem StoreSys.InStep.finish {s s' : StoreSys C} {i : Nat} (hs : s.InStep)
    (hfirst : s.InOrder (.finish i .ok)) (hstep : StoreStep s (.finish i .ok) s') : s'.InStep := by
  obtain ⟨op, hi⟩ : ∃ op, s.pending[i]? = some op := by
    cases hstep <;> exact ⟨_, ‹_›⟩
  obtain ⟨hstore, hpend, hfiles⟩ := lookup_fileStep hs hi hstep
  have hsub : ∀ {op'}, op' ∈ s'.pending → op' ∈ s.pending := by
    intro op' hop'; rw [hpend] at hop'; exact List.mem_of_mem_eraseIdx hop'
  refine ⟨by rw [hstore]; exact hs.dir_ne, by rw [hstore]; exact hs.plain,
    by rw [hstore]; exact hs.encodes, fun op' hop' => hs.pending_plain op' (hsub hop'),
    fun r hr => hs.pending_encodes r (hsub hr), fun id hid => ?_⟩
  rw [StoreSys.eventually, hstore, hpend, hfiles id hid, ← hs.eventually_eq id hid]
  exact (foldl_eraseIdx s.pending i op _ hi fun j op' hj hop' => hfirst j op' op hj hop' hi).symm

/-- **The invariant survives every step that succeeds and is in order.** -/
theorem StoreSys.InStep.step {s s' : StoreSys C} {a : StoreAction X} (hs : s.InStep)
    (hok : Succeeds C a ∧ s.InOrder a) (h : s.step a = some s') : s'.InStep := by
  have hstep := store_step h
  cases a with
  | put run now =>
      cases hstep with
      | refused hp => exact hs
      | put hp => exact hs.put (prepare_plain hok.1.1 hp) (hok.1.2 _ hp)
  | cleanup now maxAge =>
      cases hstep
      exact hs.cleanup (cutoff now maxAge)
  | finish i os =>
      have hos : os = .ok := hok.1
      subst hos
      exact hs.finish hok.2 hstep

/-- A quiet store whose disk agrees with its memory is in step. -/
theorem StoreSys.Agree.inStep {s : StoreSys C} (h : s.Agree) (hd : s.store.dir ≠ "")
    (hq : s.pending = []) : s.InStep where
  dir_ne := hd
  plain := fun id run hr => (h.holds_run id run hr).1
  encodes := fun id run hr => by
    obtain ⟨_, data, hdata, _⟩ := h.holds_run id run hr
    exact ⟨data, hdata⟩
  pending_plain := by rw [hq]; intro op hop; exact absurd hop List.not_mem_nil
  pending_encodes := by rw [hq]; intro run hr; exact absurd hr List.not_mem_nil
  eventually_eq := by
    intro id hid
    rw [StoreSys.eventually, hq, List.foldl_nil]
    cases hr : s.store.get id with
    | none =>
        have hno : s.store.diskPath id ∉ s.files := by
          rw [h.file_iff_run id hid, hr]; exact Bool.false_ne_true
        exact AList.lookup_eq_none.mpr hno
    | some run =>
        obtain ⟨_, data, hdata, hfile⟩ := h.holds_run id run hr
        rw [hfile, Option.bind_some, hdata]; rfl

/-- Once nothing is in progress, being in step is agreement. -/
theorem StoreSys.InStep.agree {s : StoreSys C} (h : s.InStep) (hq : s.pending = []) : s.Agree where
  file_iff_run := by
    intro id hid
    have hev := h.eventually_eq id hid
    rw [StoreSys.eventually, hq, List.foldl_nil] at hev
    rw [← AList.lookup_isSome, hev]
    cases hr : s.store.get id with
    | none => rfl
    | some run =>
        obtain ⟨data, hdata⟩ := h.encodes id run hr
        rw [Option.bind_some, hdata]; rfl
  holds_run := by
    intro id run hr
    have hid := h.plain id run hr
    have hev := h.eventually_eq id hid
    obtain ⟨data, hdata⟩ := h.encodes id run hr
    rw [StoreSys.eventually, hq, List.foldl_nil, hr, Option.bind_some, hdata] at hev
    exact ⟨hid, data, hdata, hev⟩

/-- An empty store on an empty directory. -/
theorem agree_of_empty {s : StoreSys C} (hr : s.store.runs = ∅) (hf : s.files = ∅) : s.Agree where
  file_iff_run := by intro id _; rw [ReceiptStore.get, hr, hf]; simp
  holds_run := by intro id run h; rw [ReceiptStore.get, hr] at h; simp at h

/-- A run of the stand-in as the run manager stores it: no id, no creation time. -/
def sampleRun (flow : String) : StoredRun sampleX where
  id := ""
  mode := "anonymous"
  flow := flow
  network := "local deterministic demo"
  proofLabel := "L3"
  createdAt := zeroTime
  receipt := some
    { report := { verified := true, assurance := { proofLevel := "L3", l0Verified := false } }
      opts :=
        { subjectType := "evidence", intentID := "intent-1", planID := "", outcomeID := "",
          evidenceID := "", anchorTx := "", verifier := "", command := "", network := "",
          verifiedAt := "" } }
  bundleJSON := [0x7B, 0x7D]

/-- A run of the stand-in with another receipt. -/
def sampleOther : StoredRun sampleX :=
  { sampleRun "create-did" with
    receipt := (sampleRun "create-did").receipt.map fun r => { r with opts := { r.opts with intentID := "other-1" } } }

/-- An empty store on an empty directory. -/
def sampleSys : StoreSys (sampleCodec sampleX) :=
  { store := { dir := "receipts", runs := ∅ }, files := ∅, pending := [] }

/-- Two runs with one receipt, put one after the other, whose writes reach the disk in the other
    order. -/
def overtakenWrite : List (StoreAction sampleX) :=
  [.put (sampleRun "golden-escrow") 1, .put (sampleRun "create-did") 2, .finish 1 .ok, .finish 0 .ok]

/-- Every disk operation succeeds, but the file keeps the first run where the map has the second. -/
theorem disagree_of_overtakenWrite : sampleSys.Agree ∧
    (∀ a ∈ overtakenWrite, Succeeds (sampleCodec sampleX) a) ∧
      ∃ t, exec StoreSys.step sampleSys overtakenWrite = some t ∧ t.pending = [] ∧ ¬ t.Agree := by
  have hpend : (exec StoreSys.step sampleSys overtakenWrite).map (fun t => t.pending.isEmpty)
      = some true := by decide +kernel
  have hmap : (exec StoreSys.step sampleSys overtakenWrite).map (fun t =>
      (t.store.get "696e74656e74").map fun run => run.flow) = some (some "create-did") := by
    decide +kernel
  have hfile : (exec StoreSys.step sampleSys overtakenWrite).map (fun t =>
      (t.files.lookup (t.store.diskPath "696e74656e74")).map fun data => data.map fun run => run.flow)
        = some (some (some "golden-escrow")) := by
    decide +kernel
  obtain ⟨t, hrun, hquiet⟩ := Option.map_eq_some_iff.mp hpend
  refine ⟨agree_of_empty rfl rfl, ?_, t, hrun, List.isEmpty_iff.mp hquiet, fun h => ?_⟩
  · intro a ha
    simp only [overtakenWrite, List.mem_cons, List.not_mem_nil, or_false] at ha
    rcases ha with rfl | rfl | rfl | rfl
    · exact ⟨by decide, fun rec _ => ⟨some rec, rfl⟩⟩
    · exact ⟨by decide, fun rec _ => ⟨some rec, rfl⟩⟩
    · exact rfl
    · exact rfl
  · rw [hrun, Option.map_some, Option.some.injEq] at hmap hfile
    obtain ⟨run, hget, hflow⟩ := Option.map_eq_some_iff.mp hmap
    obtain ⟨_, data, hdata, hlook⟩ := h.holds_run _ run hget
    cases hdata
    rw [hlook, Option.map_some, Option.map_some, hflow] at hfile
    exact absurd hfile (by decide)

/-- **Memory and disk agree in every quiet state** of a run whose disk operations succeed and whose file
    steps are taken, id by id, in the order of the map steps that caused them. -/
theorem agree_of_inOrder {s t : StoreSys C} {as : List (StoreAction X)} (hd : s.store.dir ≠ "")
    (hq : s.pending = []) (ha : s.Agree)
    (hmeets : Meets StoreSys.step (fun s a => Succeeds C a ∧ s.InOrder a) s as)
    (hrun : exec StoreSys.step s as = some t) (hqt : t.pending = []) : t.Agree :=
  (exec_guarded (fun _ _ _ hs hok h => hs.step hok h) as (ha.inStep hd hq) hmeets hrun).agree hqt

/-- Two runs with one receipt and one with another are put while no write is through; the third write overtakes one
    of another id; a `Cleanup` expires the receipt of the first two while its second write is pending. -/
def inOrderRun : List (StoreAction sampleX) :=
  [.put (sampleRun "golden-escrow") 1, .put (sampleRun "create-did") 2, .put sampleOther 3, .finish 0 .ok] ++
    ([.finish 1 .ok] ++ [.cleanup 10 (7 * second), .finish 0 .ok, .finish 0 .ok])

/-- The expired receipt is gone, the other one stays, and the files say the same. -/
theorem agree_of_inOrder_sample : ∃ t, exec StoreSys.step sampleSys inOrderRun = some t ∧
    t.store.get "696e74656e74" = none ∧ (t.store.get "6f746865722d").isSome ∧ t.Agree := by
  have hrun : (exec StoreSys.step sampleSys inOrderRun).map (fun t =>
      (t.pending.isEmpty, (t.store.get "696e74656e74").isSome, (t.store.get "6f746865722d").isSome))
        = some (true, false, true) := by decide +kernel
  obtain ⟨t, ht, hend⟩ := Option.map_eq_some_iff.mp hrun
  obtain ⟨hquiet, hgone, hstays⟩ : t.pending.isEmpty = true ∧ (t.store.get "696e74656e74").isSome = false ∧
      (t.store.get "6f746865722d").isSome = true := by simpa using hend
  have hputs : ∀ run ∈ [sampleRun "golden-escrow", sampleRun "create-did", sampleOther], ∀ now (s : StoreSys (sampleCodec sampleX)),
      Succeeds (sampleCodec sampleX) (.put run now) ∧ s.InOrder (.put run now) := by
    intro run hrun now s
    have hid : run.id = "" := by
      simp only [List.mem_cons, List.not_mem_nil, or_false] at hrun
      rcases hrun with rfl | rfl | rfl <;> rfl
    exact ⟨⟨by rw [hid]; decide, fun rec _ => ⟨some rec, rfl⟩⟩, trivial⟩
  have hfirst : ∀ s : StoreSys (sampleCodec sampleX), Succeeds (sampleCodec sampleX) (.finish 0 .ok) ∧
      s.InOrder (.finish 0 .ok) := fun _ => ⟨rfl, fun j _ _ hj => absurd hj (Nat.not_lt_zero j)⟩
  obtain ⟨s₁, hs₁, hrest⟩ := exec_append_iff.mp ht
  -- before the third write, the second one is pending on another id
  have htargets : s₁.pending.map PendingOp.target = ["696e74656e74", "6f746865722d"] := by
    have : (exec StoreSys.step sampleSys [.put (sampleRun "golden-escrow") 1, .put (sampleRun "create-did") 2,
        .put sampleOther 3, .finish 0 .ok]).map (fun s => s.pending.map PendingOp.target)
          = some ["696e74656e74", "6f746865722d"] := by decide +kernel
    rw [hs₁] at this
    exact Option.some.inj this
  have hovertakes : s₁.InOrder (.finish 1 .ok) := by
    intro j op op' hj hop hop'
    obtain rfl : j = 0 := by omega
    have h0 := congrArg (·[0]?) htargets
    have h1 := congrArg (·[1]?) htargets
    simp only [List.getElem?_map, hop, hop', Option.map_some] at h0 h1
    rw [Option.some.inj h0, Option.some.inj h1]
    decide
  obtain ⟨s₂, hs₂, hend⟩ := exec_append_iff.mp hrest
  have hmeets : Meets StoreSys.step (fun s a => Succeeds (sampleCodec sampleX) a ∧ s.InOrder a) sampleSys
      inOrderRun := by
    refine meets_append hs₁ (meets_of_forall ?_ sampleSys) (meets_append hs₂ ⟨⟨rfl, hovertakes⟩, fun _ _ => trivial⟩
      (meets_of_forall ?_ s₂))
    · intro a ha s
      simp only [List.mem_cons, List.not_mem_nil, or_false] at ha
      rcases ha with rfl | rfl | rfl | rfl
      · exact hputs _ (by simp) _ s
      · exact hputs _ (by simp) _ s
      · exact hputs _ (by simp) _ s
      · exact hfirst s
    · intro a ha s
      simp only [List.mem_cons, List.not_mem_nil, or_false] at ha
      rcases ha with rfl | rfl | rfl
      · exact ⟨trivial, trivial⟩
      · exact hfirst s
      · exact hfirst s
  exact ⟨t, ht, Option.not_isSome_iff_eq_none.mp (by rw [hgone]; nofun), hstays,
    agree_of_inOrder (by decide) rfl (agree_of_empty rfl rfl) hmeets ht (List.isEmpty_iff.mp hquiet)⟩

end Api
end InfrixPlayground
