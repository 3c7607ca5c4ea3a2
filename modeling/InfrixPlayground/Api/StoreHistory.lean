import Mathlib.Data.Set.Card
import InfrixPlayground.Api.StoreSys

/-!
# `Api.StoreHistory` — the durable store as a map with retention

What a store on a directory is for, said without maps, files or restarts: an id shows the run last put
under it until a `Cleanup` expires that run (`retained`). `history_refines` is the refinement: over any
sequence of puts, cleanups and restarts the store answers as that specification does. The invariant that
carries it, `Synced`, is that the directory holds exactly what a restart has to find.
-/

namespace InfrixPlayground
namespace Api

open GoText FilePath

variable {X : Externals} {C : RunCodec X}

/-! ## The specification -/

/-- What a caller does with a store, one call after the other. -/
inductive StoreOp (X : Externals) where
  | put (run : StoredRun X) (now : Time)
  | cleanup (now : Time) (maxAge : Duration)
  | reopen

/-- The record a call puts under `id`, if it is a `Put` that returns `id`. -/
def StoreOp.puts (id : String) : StoreOp X → Option (StoredRun X)
  | .put run now =>
    match StoredRun.prepare now (some run) with
    | .ok rec => if id = rec.id then some rec else none
    | .error _ => none
  | _ => none

/-- The last `Put` that returned `id`: its record, and the calls after it. -/
def lastPut (id : String) : List (StoreOp X) → Option (StoredRun X × List (StoreOp X))
  | [] => none
  | op :: ops =>
    match lastPut id ops with
    | some found => some found
    | none => (op.puts id).map fun rec => (rec, ops)

/-- Not a `Cleanup` whose cutoff lies strictly after the record's creation. -/
def StoreOp.spares (rec : StoredRun X) : StoreOp X → Bool
  | .cleanup now maxAge => !decide (rec.createdAt < cutoff now maxAge)
  | _ => true

/-- What `Get(id)` has to return after these calls. -/
def retained (id : String) (ops : List (StoreOp X)) : Option (StoredRun X) :=
  match lastPut id ops with
  | some (rec, later) => if later.all (StoreOp.spares rec) then some rec else none
  | none => none

/-- Equal in every field, the bundle as a JSON value. -/
structure SameRun (C : RunCodec X) (run run' : StoredRun X) : Prop where
  id : run.id = run'.id
  mode : run.mode = run'.mode
  flow : run.flow = run'.flow
  network : run.network = run'.network
  proofLabel : run.proofLabel = run'.proofLabel
  createdAt : run.createdAt = run'.createdAt
  receipt : run.receipt = run'.receipt
  bundle : C.value run.bundleJSON = C.value run'.bundleJSON

theorem SameRun.refl (run : StoredRun X) : SameRun C run run :=
  ⟨rfl, rfl, rfl, rfl, rfl, rfl, rfl, rfl⟩

theorem SameRun.symm {r₁ r₂ : StoredRun X} (h : SameRun C r₁ r₂) : SameRun C r₂ r₁ :=
  ⟨h.id.symm, h.mode.symm, h.flow.symm, h.network.symm, h.proofLabel.symm, h.createdAt.symm,
    h.receipt.symm, h.bundle.symm⟩

theorem SameRun.trans {r₁ r₂ r₃ : StoredRun X} (h : SameRun C r₁ r₂) (h' : SameRun C r₂ r₃) :
    SameRun C r₁ r₃ :=
  ⟨h.id.trans h'.id, h.mode.trans h'.mode, h.flow.trans h'.flow, h.network.trans h'.network,
    h.proofLabel.trans h'.proofLabel, h.createdAt.trans h'.createdAt, h.receipt.trans h'.receipt,
    h.bundle.trans h'.bundle⟩

/-- `encoding/json` gives a run with a receipt and a valid bundle back. -/
def RunCodec.RoundTrips (C : RunCodec X) : Prop :=
  ∀ run : StoredRun X, run.receipt.isSome → (C.value run.bundleJSON).isSome →
    ∃ data run', C.marshalIndent run = .ok data ∧ C.unmarshal data = some run' ∧ SameRun C run' run

/-! ## The store under the same calls -/

/-- An open store and the files it was opened on. -/
structure Opened (C : RunCodec X) where
  store : ReceiptStore X
  files : Files C.Data

/-- Open a store on a directory, all disk operations succeeding. -/
def openStore (C : RunCodec X) (dir : String) (files : Files C.Data) : Opened C :=
  match newReceiptStore C .ok dir files with
  | .ok store => { store, files }
  | .error _ => { store := { dir, runs := ∅ }, files }

/-- One call, all disk operations succeeding. -/
def StoreOp.apply (o : Opened C) : StoreOp X → Opened C
  | .put run now =>
    let r := o.store.put C .ok now (some run) o.files
    { store := r.1, files := r.2.1 }
  | .cleanup now maxAge =>
    let r := o.store.cleanup .ok now maxAge o.files
    { store := r.1, files := r.2.1 }
  | .reopen => openStore C o.store.dir o.files

/-- The store after a sequence of calls, opened on `dir`. -/
def history (C : RunCodec X) (dir : String) (files : Files C.Data) (ops : List (StoreOp X)) :
    Opened C :=
  ops.foldl StoreOp.apply (openStore C dir files)

/-- The puts of a history: no id, a receipt, a bundle that is valid JSON. -/
def StoreOp.Valid (C : RunCodec X) : StoreOp X → Prop
  | .put run _ => run.id = "" ∧ run.receipt.isSome ∧ (C.value run.bundleJSON).isSome
  | _ => True

/-! ## What a call adds to the specification -/

theorem lastPut_snoc (id : String) (op : StoreOp X) : ∀ ops : List (StoreOp X),
    lastPut id (ops ++ [op]) = match op.puts id with
      | some rec => some (rec, [])
      | none => (lastPut id ops).map fun found => (found.1, found.2 ++ [op]) := by
  intro ops
  induction ops with
  | nil => cases hp : op.puts id <;> simp [lastPut, hp]
  | cons head ops ih =>
      rw [List.cons_append, lastPut, ih]
      cases op.puts id with
      | some rec => rfl
      | none =>
          rw [lastPut]
          cases lastPut id ops with
          | some found => rfl
          | none => cases head.puts id <;> rfl

/-- **The specification, call by call.** A put shows its record at once; any other call keeps what it
    spares. -/
theorem retained_snoc (id : String) (op : StoreOp X) (ops : List (StoreOp X)) :
    retained id (ops ++ [op]) = match op.puts id with
      | some rec => some rec
      | none => (retained id ops).filter fun rec => op.spares rec := by
  unfold retained
  rw [lastPut_snoc]
  cases hp : op.puts id with
  | some rec => rfl
  | none =>
      cases lastPut id ops with
      | none => rfl
      | some found =>
          simp only [Option.map_some, List.all_append, List.all_cons, List.all_nil, Bool.and_true]
          by_cases h : found.2.all (StoreOp.spares found.1) = true
          · cases hs : op.spares found.1 <;> simp [h, hs, Option.filter]
          · simp [h]

/-! ## Memory and directory in step -/

/-- **The invariant.** Every run of the map has its file, from which it can be read back, and every run
    file of the directory belongs to a run of the map. -/
structure Synced (o : Opened C) : Prop where
  dir_ne : o.store.dir ≠ ""
  holds : ∀ id run, o.store.get id = some run → PlainId id ∧ id ≠ "" ∧ run.id = id ∧
    ∃ data run', o.files.lookup (o.store.diskPath id) = some data ∧ C.unmarshal data = some run' ∧
      SameRun C run' run
  known : ∀ name ∈ readDir o.files o.store.dir, hasSuffix name ".run.json" = true →
    ∃ id run, o.store.get id = some run ∧ name = id ++ ".run.json"

theorem hasSuffix_append (s suffix : String) : hasSuffix (s ++ suffix) suffix = true := by
  rw [hasSuffix, String.toList_append, List.isSuffixOf_iff_suffix]
  exact List.suffix_append ..

/-- A run file is listed under its own name. -/
theorem mem_readDir_of_file {s : ReceiptStore X} {files : Files C.Data} {id : String} {data : C.Data}
    (hd : s.dir ≠ "") (hp : PlainId id) (h : files.lookup (s.diskPath id) = some data) :
    id ++ ".run.json" ∈ readDir files s.dir := by
  rw [mem_readDir, ← diskPath_of_plain hd hp, AList.mem_iff_lookup]
  exact ⟨data, h⟩

/-- Removing the files of some ids leaves the other paths alone. -/
theorem lookup_removeFiles (s : ReceiptStore X) (p : Path) : ∀ (ids : List String) (files : Files C.Data),
    (ids.foldl (fun files id => s.removeFile .ok id files) files).lookup p
      = if p ∈ ids.map s.diskPath then none else files.lookup p := by
  intro ids
  induction ids with
  | nil => intro files; rfl
  | cons id ids ih =>
      intro files
      rw [List.foldl_cons, ih, List.map_cons]
      by_cases hlater : p ∈ ids.map s.diskPath
      · rw [if_pos hlater, if_pos (List.mem_cons_of_mem _ hlater)]
      · rw [if_neg hlater]
        show (files.erase (s.diskPath id)).lookup p = _
        by_cases hid : p = s.diskPath id
        · rw [hid, AList.lookup_erase, if_pos (List.mem_cons_self ..)]
        · rw [AList.lookup_erase_ne hid, if_neg (fun h => (List.mem_cons.mp h).elim hid hlater)]

/-- A put that is accepted, step by step. -/
theorem apply_put {o : Opened C} {run rec : StoredRun X} {now : Time} {data : C.Data}
    (hd : o.store.dir ≠ "") (hprep : StoredRun.prepare now (some run) = .ok rec)
    (hdata : C.marshalIndent rec = .ok data) :
    (StoreOp.put run now).apply o
      = ⟨o.store.insert rec, o.files.insert (o.store.diskPath rec.id) data⟩ := by
  simp [StoreOp.apply, ReceiptStore.put, hprep, ReceiptStore.persist, hdata, Disk.ok, hd]

theorem apply_put_refused {o : Opened C} {run : StoredRun X} {now : Time} {e : String}
    (hprep : StoredRun.prepare now (some run) = .error e) : (StoreOp.put run now).apply o = o := by
  simp [StoreOp.apply, ReceiptStore.put, hprep]

theorem apply_cleanup {o : Opened C} (hd : o.store.dir ≠ "") (now : Time) (maxAge : Duration) :
    (StoreOp.cleanup now maxAge).apply o
      = ⟨o.store.expire (cutoff now maxAge), (o.store.expired (cutoff now maxAge)).foldl
          (fun files id => (o.store.expire (cutoff now maxAge)).removeFile .ok id files) o.files⟩ := by
  simp [StoreOp.apply, ReceiptStore.cleanup, hd]

/-- **A valid put** changes the map as the put under the lock does, and keeps the directory in step. -/
theorem Synced.put {o : Opened C} (hcodec : C.RoundTrips) (hs : Synced o) {run rec : StoredRun X}
    {now : Time} (hvalid : (StoreOp.put run now).Valid C)
    (hprep : StoredRun.prepare now (some run) = .ok rec) :
    ((StoreOp.put run now).apply o).store = o.store.insert rec ∧
      Synced ((StoreOp.put run now).apply o) := by
  obtain ⟨hid, hreceipt, hbundle⟩ := hvalid
  have hplain : PlainId rec.id := prepare_plain (by rw [hid]; decide) hprep
  have hne := prepare_id_ne_empty hprep
  obtain ⟨run₀, receipt, receiptJSON, hrun, _, _, hrec⟩ := prepare_eq_ok hprep
  cases hrun
  obtain ⟨data, rec', hdata, hback, hsame⟩ := hcodec rec (by rw [hrec]; exact hreceipt)
    (by rw [hrec]; exact hbundle)
  rw [apply_put hs.dir_ne hprep hdata]
  refine ⟨rfl, hs.dir_ne, ?_, ?_⟩
  · intro id r hr
    show PlainId id ∧ _ ∧ _ ∧ ∃ data' run', (o.files.insert (o.store.diskPath rec.id) data).lookup
      (o.store.diskPath id) = some data' ∧ _
    rw [get_insert] at hr
    by_cases h : id = rec.id
    · rw [if_pos h] at hr
      cases hr
      rw [h, AList.lookup_insert]
      exact ⟨hplain, hne, rfl, data, rec', rfl, hback, hsame⟩
    · rw [if_neg h] at hr
      obtain ⟨hp, hn, hrid, data', run', hfile, hread, hsame'⟩ := hs.holds id r hr
      rw [AList.lookup_insert_ne fun he => h (diskPath_inj hs.dir_ne hp hplain he)]
      exact ⟨hp, hn, hrid, data', run', hfile, hread, hsame'⟩
  · intro name hname hsuffix
    show ∃ id r, (o.store.insert rec).get id = some r ∧ name = id ++ ".run.json"
    rw [mem_readDir, AList.mem_insert] at hname
    rcases hname with hname | hname
    · -- the file just written
      refine ⟨rec.id, rec, by rw [get_insert, if_pos rfl], ?_⟩
      rw [diskPath_of_plain hs.dir_ne hplain] at hname
      exact Path.child_inj hname
    · obtain ⟨id, r, hr, hn⟩ := hs.known name (mem_readDir.mpr hname) hsuffix
      by_cases h : id = rec.id
      · exact ⟨id, rec, by rw [get_insert, if_pos h], hn⟩
      · exact ⟨id, r, by rw [get_insert, if_neg h]; exact hr, hn⟩

/-- **A cleanup** removes the files of exactly the runs it removes from the map. -/
theorem Synced.cleanup {o : Opened C} (hs : Synced o) (now : Time) (maxAge : Duration) :
    ((StoreOp.cleanup now maxAge).apply o).store = o.store.expire (cutoff now maxAge) ∧
      Synced ((StoreOp.cleanup now maxAge).apply o) := by
  rw [apply_cleanup hs.dir_ne]
  refine ⟨rfl, hs.dir_ne, ?_, ?_⟩
  · intro id r hr
    obtain ⟨hget, hage⟩ := get_expire_eq_some.mp hr
    obtain ⟨hp, hn, hrid, data, run', hfile, hread, hsame⟩ := hs.holds id r hget
    refine ⟨hp, hn, hrid, data, run', ?_, hread, hsame⟩
    -- distinct plain ids have distinct files, so no expired run takes this file with it
    have hkept : o.store.diskPath id ∉ (o.store.expired (cutoff now maxAge)).map o.store.diskPath := by
      intro hmem
      obtain ⟨id', hid', heq⟩ := List.mem_map.mp hmem
      obtain ⟨r', hget', hold⟩ := mem_expired.mp hid'
      have hsame' := diskPath_inj hs.dir_ne (hs.holds id' r' hget').1 hp heq
      rw [hsame', hget] at hget'
      cases hget'
      exact absurd hold (not_lt.mpr hage)
    exact (lookup_removeFiles ..).trans ((if_neg hkept).trans hfile)
  · intro name hname hsuffix
    obtain ⟨data, hdata⟩ := AList.mem_iff_lookup.mp (mem_readDir.mp hname)
    have hdata' := (lookup_removeFiles (o.store.expire (cutoff now maxAge)) _ _ _).symm.trans hdata
    split at hdata'
    · exact absurd hdata' (by simp)
    · rename_i hkept
      obtain ⟨id, r, hget, hn⟩ := hs.known name
        (mem_readDir.mpr (AList.mem_iff_lookup.mpr ⟨data, hdata'⟩)) hsuffix
      refine ⟨id, r, get_expire_eq_some.mpr ⟨hget, ?_⟩, hn⟩
      by_contra hold
      apply hkept
      refine List.mem_map.mpr ⟨id, mem_expired.mpr ⟨r, hget, not_le.mp hold⟩, ?_⟩
      rw [hn]
      exact diskPath_of_plain hs.dir_ne (hs.holds id r hget).1

/-- What opening a store loads, when nothing fails. -/
theorem openStore_eq (dir : String) (files : Files C.Data) (hd : dir ≠ "") :
    openStore C dir files = ⟨⟨dir, AList.insertAll (loadFile C .ok dir files) ∅
      (((readDir files dir).filter fun name => hasSuffix name ".run.json").mergeSort
        fun a b => decide (a ≤ b))⟩, files⟩ := by
  simp [openStore, newReceiptStore, ReceiptStore.loadFromDisk, Disk.ok, hd]

/-- The names a restart goes through. -/
theorem mem_loaded_names {o : Opened C} {name : String} :
    name ∈ ((readDir o.files o.store.dir).filter fun name => hasSuffix name ".run.json").mergeSort
        (fun a b => decide (a ≤ b))
      ↔ name ∈ readDir o.files o.store.dir ∧ hasSuffix name ".run.json" = true := by
  rw [List.mem_mergeSort, List.mem_filter]

/-- The file of a run of the map loads as that run. -/
theorem Synced.loadFile {o : Opened C} (hs : Synced o) {id : String} {run : StoredRun X}
    (h : o.store.get id = some run) :
    ∃ run', Api.loadFile C .ok o.store.dir o.files (id ++ ".run.json") = some (id, run') ∧
      SameRun C run' run := by
  obtain ⟨_, hne, hid, data, run', hfile, hread, hsame⟩ := hs.holds id run h
  have hid' : run'.id = id := hsame.id.trans hid
  have hbind : (o.files.lookup (join o.store.dir (id ++ ".run.json"))).bind C.unmarshal
      = some run' := by
    rw [show o.files.lookup (join o.store.dir (id ++ ".run.json")) = some data from hfile]
    exact hread
  refine ⟨run', ?_, hsame⟩
  unfold Api.loadFile
  rw [if_neg (by simp [Disk.ok]), hbind]
  simp only [hid', ne_eq, hne, not_false_eq_true, if_true]

/-- A file that loads under an id is the file of that id's run. -/
theorem Synced.of_loadFile {o : Opened C} (hs : Synced o) {name id : String} {run' : StoredRun X}
    (hname : name ∈ readDir o.files o.store.dir) (hsuffix : hasSuffix name ".run.json" = true)
    (h : Api.loadFile C .ok o.store.dir o.files name = some (id, run')) :
    ∃ run, o.store.get id = some run ∧ name = id ++ ".run.json" := by
  obtain ⟨id', run, hget, hn⟩ := hs.known name hname hsuffix
  obtain ⟨run'', hload, _⟩ := hs.loadFile hget
  rw [hn, hload, Option.some.injEq, Prod.mk.injEq] at h
  rw [← h.1]
  exact ⟨run, hget, hn⟩

/-- **A restart finds what was there**: every run again, the bundle as a JSON value, and no other. -/
theorem Synced.get_reopen {o : Opened C} (hs : Synced o) (id : String) :
    Option.Rel (SameRun C) ((StoreOp.apply o .reopen).store.get id) (o.store.get id) := by
  show Option.Rel _ ((openStore C o.store.dir o.files).store.get id) _
  rw [openStore_eq _ _ hs.dir_ne]
  show Option.Rel _ ((AList.insertAll (Api.loadFile C .ok o.store.dir o.files) ∅ _).lookup id) _
  cases hget : o.store.get id with
  | some run =>
      obtain ⟨run', hload, hsame⟩ := hs.loadFile hget
      obtain ⟨hp, _, _, data, _, hfile, _⟩ := hs.holds id run hget
      -- its own file loads as the run, and no other file of the directory loads under its id
      have hlook := AList.lookup_insertAll_of_mem (a := id) (b := run') _ ∅
        ⟨id ++ ".run.json", mem_loaded_names.mpr ⟨mem_readDir_of_file hs.dir_ne hp hfile,
          hasSuffix_append id ".run.json"⟩, hload⟩
        (fun name hname run'' hload' => by
          obtain ⟨hlisted, hsuffix⟩ := mem_loaded_names.mp hname
          obtain ⟨_, _, hn⟩ := hs.of_loadFile hlisted hsuffix hload'
          rw [hn, hload, Option.some.injEq, Prod.mk.injEq] at hload'
          exact hload'.2.symm)
      rw [hlook]
      exact .some hsame
  | none =>
      have hlook := AList.lookup_insertAll_of_not (f := Api.loadFile C .ok o.store.dir o.files)
        (a := id) _ ∅ (fun name hname run' hload => by
          obtain ⟨hlisted, hsuffix⟩ := mem_loaded_names.mp hname
          obtain ⟨run, hrun, _⟩ := hs.of_loadFile hlisted hsuffix hload
          rw [hget] at hrun; exact absurd hrun (by simp))
      rw [hlook]
      exact .none

/-- The specification side of a relation that finds something. -/
theorem rel_some {α β : Type} {R : α → β → Prop} {x : Option α} {b : β} (h : Option.Rel R x (some b)) :
    ∃ a, x = some a ∧ R a b := by
  cases h with
  | some h => exact ⟨_, rfl, h⟩

/-- **A restart** leaves memory and directory in step. -/
theorem Synced.reopen {o : Opened C} (hs : Synced o) : Synced (StoreOp.apply o .reopen) := by
  have hdir : (StoreOp.apply o .reopen).store.dir = o.store.dir := by
    show (openStore C o.store.dir o.files).store.dir = _
    rw [openStore_eq _ _ hs.dir_ne]
  have hfiles : (StoreOp.apply o .reopen).files = o.files := by
    show (openStore C o.store.dir o.files).files = _
    rw [openStore_eq _ _ hs.dir_ne]
  refine ⟨by rw [hdir]; exact hs.dir_ne, ?_, ?_⟩
  · intro id run hrun
    have hrel := hs.get_reopen id
    rw [hrun] at hrel
    cases hget : o.store.get id with
    | none => rw [hget] at hrel; cases hrel
    | some old =>
        rw [hget] at hrel
        obtain ⟨run', hr, hsame⟩ := rel_some hrel
        cases hr
        obtain ⟨hp, hn, hid, data, run'', hfile, hread, hsame'⟩ := hs.holds id old hget
        refine ⟨hp, hn, hsame.id.trans hid, data, run'', ?_, hread, hsame'.trans hsame.symm⟩
        rw [hfiles, ReceiptStore.diskPath, hdir]
        exact hfile
  · intro name hname hsuffix
    rw [hdir, hfiles] at hname
    obtain ⟨id, old, hget, hn⟩ := hs.known name hname hsuffix
    have hrel := hs.get_reopen id
    rw [hget] at hrel
    obtain ⟨run, hrun, _⟩ := rel_some hrel
    exact ⟨id, run, hrun, hn⟩

/-! ## The refinement -/

/-- The store after some calls: in step with its directory, and showing what it has to. -/
structure Refines (o : Opened C) (ops : List (StoreOp X)) : Prop where
  synced : Synced o
  shows : ∀ id, Option.Rel (SameRun C) (o.store.get id) (retained id ops)

theorem rel_trans {x y z : Option (StoredRun X)} (h : Option.Rel (SameRun C) x y)
    (h' : Option.Rel (SameRun C) y z) : Option.Rel (SameRun C) x z := by
  cases h with
  | none => exact h'
  | some h =>
      cases h' with
      | some h' => exact .some (h.trans h')

theorem rel_isSome {x y : Option (StoredRun X)} (h : Option.Rel (SameRun C) x y) :
    x.isSome = y.isSome := by
  cases h <;> rfl

/-- Runs that agree are filtered alike by a test that does not look at the bundle's bytes. -/
theorem rel_filter {x y : Option (StoredRun X)} {p : StoredRun X → Bool}
    (hp : ∀ r r', SameRun C r r' → p r = p r') (h : Option.Rel (SameRun C) x y) :
    Option.Rel (SameRun C) (x.filter p) (y.filter p) := by
  cases h with
  | none => exact .none
  | @some r r' h =>
      rw [Option.filter_some, Option.filter_some, hp r r' h]
      split
      · exact .some h
      · exact .none

theorem filter_spares_of_true {op : StoreOp X} (h : ∀ rec, op.spares rec = true)
    (x : Option (StoredRun X)) : (x.filter fun rec => op.spares rec) = x := by
  cases x with
  | none => rfl
  | some r => rw [Option.filter_some, if_pos (h r)]

/-- **One call.** -/
theorem Refines.step {o : Opened C} {ops : List (StoreOp X)} (hcodec : C.RoundTrips)
    (h : Refines o ops) (op : StoreOp X) (hvalid : op.Valid C) : Refines (op.apply o) (ops ++ [op]) := by
  cases op with
  | put run now =>
      have hspares : ∀ rec, (StoreOp.put run now).spares rec = true := fun _ => rfl
      cases hprep : StoredRun.prepare now (some run) with
      | error e =>
          -- a refused `Put` neither stores nor counts as a put of any id
          rw [apply_put_refused hprep]
          refine ⟨h.synced, fun id => ?_⟩
          have hputs : (StoreOp.put run now).puts id = none := by simp only [StoreOp.puts, hprep]
          rw [retained_snoc, hputs]
          simp only [filter_spares_of_true hspares]
          exact h.shows id
      | ok rec =>
          obtain ⟨hstore, hsync⟩ := h.synced.put hcodec hvalid hprep
          refine ⟨hsync, fun id => ?_⟩
          have hputs : (StoreOp.put run now).puts id = if id = rec.id then some rec else none := by
            simp only [StoreOp.puts, hprep]
          rw [hstore, get_insert, retained_snoc, hputs]
          by_cases hid : id = rec.id
          · simp only [if_pos hid]; exact .some (.refl rec)
          · simp only [if_neg hid, filter_spares_of_true hspares]; exact h.shows id
  | cleanup now maxAge =>
      obtain ⟨hstore, hsync⟩ := h.synced.cleanup now maxAge
      refine ⟨hsync, fun id => ?_⟩
      rw [hstore, get_expire, retained_snoc]
      exact rel_filter (fun r r' hr => by rw [hr.createdAt]) (h.shows id)
  | reopen =>
      refine ⟨h.synced.reopen, fun id => ?_⟩
      rw [retained_snoc]
      simp only [StoreOp.puts, filter_spares_of_true (fun _ => rfl : ∀ rec : StoredRun X,
        StoreOp.reopen.spares rec = true)]
      exact rel_trans (h.synced.get_reopen id) (h.shows id)

/-- A store opened on an empty directory. -/
theorem refines_openStore {dir : String} {files : Files C.Data} (hd : dir ≠ "")
    (hempty : readDir files dir = []) : Refines (openStore C dir files) [] := by
  have hget : ∀ id, (openStore C dir files).store.get id = none := by
    intro id
    rw [openStore_eq _ _ hd, hempty, List.filter_nil, List.mergeSort_nil]
    exact AList.lookup_empty id
  have hlist : readDir (openStore C dir files).files (openStore C dir files).store.dir = [] := by
    rw [openStore_eq _ _ hd]; exact hempty
  refine ⟨⟨by rw [openStore_eq _ _ hd]; exact hd, ?_, ?_⟩, fun id => by rw [hget]; exact .none⟩
  · intro id run hrun; rw [hget] at hrun; exact absurd hrun (by simp)
  · intro name hname; rw [hlist] at hname; exact absurd hname List.not_mem_nil

/-- **Every history.** -/
theorem refines_history (hcodec : C.RoundTrips) {dir : String} {files : Files C.Data} (hd : dir ≠ "")
    (hempty : readDir files dir = []) : ∀ ops : List (StoreOp X), (∀ op ∈ ops, op.Valid C) →
      Refines (history C dir files ops) ops := by
  intro ops
  induction ops using List.reverseRecOn with
  | nil => intro _; exact refines_openStore hd hempty
  | append_singleton ops op ih =>
      intro hvalid
      rw [history, List.foldl_append, List.foldl_cons, List.foldl_nil]
      exact (ih fun op' hop' => hvalid op' (List.mem_append_left _ hop')).step hcodec op
        (hvalid op (List.mem_append_right _ (List.mem_singleton_self op)))

/-- Counting the members of a duplicate-free list as a set. -/
theorem ncard_of_nodup {ids : List String} (h : ids.Nodup) : {id | id ∈ ids}.ncard = ids.length := by
  rw [← List.toFinset_card_of_nodup h, ← Set.ncard_coe_finset]
  congr 1
  ext id
  simp

/-- The store counts the ids it would find. -/
theorem count_eq_ncard (s : ReceiptStore X) : s.count = {id | (s.get id).isSome}.ncard := by
  have hlen : s.count = s.runs.keys.length := (List.length_map _).symm
  rw [hlen, ← ncard_of_nodup s.runs.keys_nodup]
  congr 1
  ext id
  rw [Set.mem_ofPred_eq, Set.mem_ofPred_eq, ReceiptStore.get, AList.lookup_isSome, AList.mem_keys]

/-- **The durable store refines a map with retention.** After any sequence of valid puts, cleanups and
    restarts that begins on an empty directory, `Get` shows what the specification retains (the bundle as
    a JSON value), `Count` counts the ids retained, and the next `Cleanup` returns the number of ids it
    makes miss. -/
theorem history_refines (hcodec : C.RoundTrips) {dir : String} {files : Files C.Data} (hd : dir ≠ "")
    (hempty : readDir files dir = []) (ops : List (StoreOp X)) (hvalid : ∀ op ∈ ops, op.Valid C) :
    (∀ id, Option.Rel (SameRun C) ((history C dir files ops).store.get id) (retained id ops)) ∧
      (history C dir files ops).store.count = {id | (retained id ops).isSome}.ncard ∧
      ∀ now maxAge, ((history C dir files ops).store.cleanup .ok now maxAge
          (history C dir files ops).files).2.2
        = {id | (retained id ops).isSome ∧
            retained id (ops ++ [.cleanup now maxAge]) = none}.ncard := by
  have h := refines_history hcodec hd hempty ops hvalid
  generalize history C dir files ops = o at h ⊢
  refine ⟨h.shows, ?_, fun now maxAge => ?_⟩
  · rw [count_eq_ncard]
    congr 1
    ext id
    rw [Set.mem_ofPred_eq, Set.mem_ofPred_eq, rel_isSome (h.shows id)]
  · have hcount : (o.store.cleanup .ok now maxAge o.files).2.2
        = (o.store.expired (cutoff now maxAge)).length := by
      simp [ReceiptStore.cleanup, h.synced.dir_ne]
    rw [hcount, ← ncard_of_nodup (expired_nodup ..)]
    congr 1
    ext id
    -- what the next call retains, against what the map holds now
    have hnext : retained id (ops ++ [.cleanup now maxAge])
        = (retained id ops).filter fun rec => !decide (rec.createdAt < cutoff now maxAge) :=
      retained_snoc id (.cleanup now maxAge) ops
    rw [Set.mem_ofPred_eq, Set.mem_ofPred_eq, mem_expired, hnext]
    have hrel := h.shows id
    cases hget : o.store.get id with
    | none =>
        rw [hget] at hrel
        cases hret : retained id ops with
        | none => simp
        | some rec => rw [hret] at hrel; cases hrel
    | some run =>
        rw [hget] at hrel
        cases hret : retained id ops with
        | none => rw [hret] at hrel; cases hrel
        | some rec =>
            rw [hret] at hrel
            obtain ⟨run', hr, hsame⟩ := rel_some hrel
            cases hr
            simp [hsame.createdAt, Option.filter_some]

/-- One run is put, the server restarts, and nothing is old enough to be cleaned up. -/
def sampleOps : List (StoreOp sampleX) :=
  [.put (sampleRun "golden-escrow") 1, .reopen, .cleanup 10 (60 * second)]

theorem history_refines_sample :
    Option.Rel (SameRun (sampleCodec sampleX))
        ((history (sampleCodec sampleX) "receipts" ∅ sampleOps).store.get "696e74656e74")
        (retained "696e74656e74" sampleOps) ∧
      (history (sampleCodec sampleX) "receipts" ∅ sampleOps).store.count
        = {id | (retained id sampleOps).isSome}.ncard := by
  have hvalid : ∀ op ∈ sampleOps, op.Valid (sampleCodec sampleX) := by
    intro op hop
    simp only [sampleOps, List.mem_cons, List.not_mem_nil, or_false] at hop
    rcases hop with rfl | rfl | rfl
    · exact ⟨rfl, rfl, rfl⟩
    · exact trivial
    · exact trivial
  have hcodec : (sampleCodec sampleX).RoundTrips := 
    fun run _ _ => ⟨some run, run, rfl, rfl, .refl run⟩
  have hempty : readDir (∅ : Files (sampleCodec sampleX).Data) "receipts" = [] := rfl
  obtain ⟨hshows, hcount, _⟩ := history_refines hcodec (by decide) hempty sampleOps hvalid
  exact ⟨hshows _, hcount⟩

end Api
end InfrixPlayground
