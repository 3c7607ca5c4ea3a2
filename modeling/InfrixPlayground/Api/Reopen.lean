import InfrixPlayground.Api.FailedPut

/-!
# `Api.Reopen` — directories that the store did not write

A store trusts the id inside a file when it loads it, and computes the name of the file from the id when it
cleans up. `ExpiresForGood` is what the two have to agree on for an expired run to stay expired;
`expires_for_good_iff` says for which directories they do: those whose run files have the names the store
would give them, and hold receipts. The store's own calls keep a directory so (`tidy_history`).
-/

namespace InfrixPlayground
namespace Api

open GoText FilePath

variable {X : Externals} {C : RunCodec X}

/-! ## Opening -/

/-- What it takes for a file to load. -/
theorem loadFile_eq_some {os : Disk} {dir : String} {files : Files C.Data} {name id : String}
    {run : StoredRun X} :
    loadFile C os dir files name = some (id, run) ↔ os.unreadable (join dir name) = false ∧
      (∃ data, files.lookup (join dir name) = some data ∧ C.unmarshal data = some run) ∧
      run.id = id ∧ id ≠ "" := by
  unfold loadFile
  constructor
  · intro h
    split at h
    · exact absurd h (by simp)
    · rename_i hreadable
      split at h
      · rename_i hrun
        split at h
        · rename_i hne
          rw [Option.some.injEq, Prod.mk.injEq] at h
          obtain ⟨rfl, rfl⟩ := h
          exact ⟨Bool.not_eq_true _ ▸ hreadable, Option.bind_eq_some_iff.mp hrun, rfl, hne⟩
        · exact absurd h (by simp)
      · exact absurd h (by simp)
  · rintro ⟨hreadable, hrun, rfl, hne⟩
    rw [if_neg (by rw [hreadable]; exact Bool.false_ne_true), Option.bind_eq_some_iff.mpr hrun]
    exact if_pos hne

/-- The store is opened from a directory: there is one, and creating and listing it succeeds. -/
def Opens (os : Disk) (dir : String) : Prop := dir ≠ "" ∧ os.mkdirAll = none ∧ os.readDir = none

/-- The store a directory is loaded into. -/
def loadedStore (C : RunCodec X) (os : Disk) (dir : String) (files : Files C.Data) : ReceiptStore X :=
  { dir, runs := AList.insertAll (loadFile C os dir files) ∅ (loadedNames files dir) }

/-- The file called `name` of the directory holds a run under `id`, and can be read. -/
def Holds (C : RunCodec X) (os : Disk) (dir : String) (files : Files C.Data) (name id : String)
    (run : StoredRun X) : Prop :=
  name ∈ loadedNames files dir ∧ loadFile C os dir files name = some (id, run)

/-- The entry of `id` was read from the file called `name`: the last one that holds a run under `id`. -/
def ReadFrom (C : RunCodec X) (os : Disk) (dir : String) (files : Files C.Data) (id name : String)
    (run : StoredRun X) : Prop :=
  AList.LastUnder (loadFile C os dir files) (loadedNames files dir) id name run

theorem newReceiptStore_of_opens {os : Disk} {dir : String} {files : Files C.Data} (h : Opens os dir) :
    newReceiptStore C os dir files = .ok (loadedStore C os dir files) := by
  obtain ⟨hd, hmkdir, hread⟩ := h
  simp only [newReceiptStore, if_neg hd, hmkdir, ReceiptStore.loadFromDisk, hread]
  rfl

/-- A store that opens is empty and has no directory, or is loaded from it. -/
theorem newReceiptStore_cases {os : Disk} {dir : String} {files : Files C.Data} {s : ReceiptStore X}
    (h : newReceiptStore C os dir files = .ok s) :
    dir = "" ∧ s = { dir, runs := ∅ } ∨ Opens os dir ∧ s = loadedStore C os dir files := by
  by_cases hd : dir = ""
  · simp only [newReceiptStore, if_pos hd, Except.ok.injEq] at h
    exact .inl ⟨hd, h.symm⟩
  · cases hmkdir : os.mkdirAll with
    | some e => simp [newReceiptStore, hd, hmkdir] at h
    | none =>
        cases hread : os.readDir with
        | some e => simp [newReceiptStore, hd, hmkdir, ReceiptStore.loadFromDisk, hread] at h
        | none =>
            have hopens : Opens os dir := ⟨hd, hmkdir, hread⟩
            rw [newReceiptStore_of_opens hopens, Except.ok.injEq] at h
            exact .inr ⟨hopens, h.symm⟩

theorem get_loadedStore {os : Disk} {dir : String} {files : Files C.Data} {id : String}
    {run : StoredRun X} :
    (loadedStore C os dir files).get id = some run ↔ ∃ name, ReadFrom C os dir files id name run :=
  AList.lookup_insertAll_iff

theorem ReadFrom.holds {os : Disk} {dir : String} {files : Files C.Data} {id name : String}
    {run : StoredRun X} (h : ReadFrom C os dir files id name run) : Holds C os dir files name id run :=
  ⟨h.mem, h.1⟩

theorem Holds.readFrom {os : Disk} {dir : String} {files : Files C.Data} {name id : String}
    {run : StoredRun X} (h : Holds C os dir files name id run) :
    ∃ name run, ReadFrom C os dir files id name run :=
  AList.exists_lastUnder ⟨name, h.1, run, h.2⟩

/-- What can be read on one occasion is what is there. -/
theorem Holds.there {os : Disk} {dir : String} {files : Files C.Data} {name id : String}
    {run : StoredRun X} (h : Holds C os dir files name id run) : Holds C .ok dir files name id run := by
  obtain ⟨_, hrun⟩ := loadFile_eq_some.mp h.2
  exact ⟨h.1, loadFile_eq_some.mpr ⟨rfl, hrun⟩⟩

/-- A file holds one run. -/
theorem Holds.unique {os : Disk} {dir : String} {files : Files C.Data} {name id id' : String}
    {run run' : StoredRun X} (h : Holds C os dir files name id run)
    (h' : Holds C os dir files name id' run') : id = id' ∧ run = run' := by
  have heq := h.2.symm.trans h'.2
  rw [Option.some.injEq, Prod.mk.injEq] at heq
  exact heq

/-! ## Cleaning up -/

/-- The system lets the files of these ids be removed. -/
def Removable (os : Disk) (s : ReceiptStore X) (ids : List String) : Prop :=
  ∀ id ∈ ids, os.unremovable (s.diskPath id) = false

/-- The removal of each of these files succeeds: it can be removed, and it is there. -/
def RemovalsSucceed (os : Disk) (s : ReceiptStore X) (files : Files C.Data) (ids : List String) : Prop :=
  Removable os s ids ∧ ∀ id ∈ ids, s.diskPath id ∈ files

/-- The files after a `Cleanup`. -/
def ReceiptStore.cleaned (os : Disk) (now : Time) (maxAge : Duration) (s : ReceiptStore X)
    (files : Files C.Data) : Files C.Data :=
  (s.cleanup os now maxAge files).2.1

theorem removeFiles_eq {os : Disk} {s : ReceiptStore X} : ∀ {ids : List String},
    Removable os s ids → ∀ files : Files C.Data, ids.foldl (fun files id => s.removeFile os id files) files
      = ids.foldl (fun files id => s.removeFile .ok id files) files := by
  intro ids
  induction ids with
  | nil => intro _ files; rfl
  | cons id ids ih =>
      intro h files
      have hid : s.removeFile os id files = s.removeFile .ok id files := by
        simp [ReceiptStore.removeFile, Disk.ok, h id (List.mem_cons_self ..)]
      rw [List.foldl_cons, List.foldl_cons, hid]
      exact ih (fun id' hid' => h id' (List.mem_cons_of_mem _ hid')) _

/-- What a `Cleanup` leaves of the files if all it removes can be removed. -/
theorem lookup_cleaned {os : Disk} {s : ReceiptStore X} {files : Files C.Data} {now : Time}
    {maxAge : Duration} (hd : s.dir ≠ "") (hok : Removable os s (s.expired (cutoff now maxAge)))
    (p : Path) :
    (s.cleaned os now maxAge files).lookup p
      = if p ∈ (s.expired (cutoff now maxAge)).map s.diskPath then none else files.lookup p := by
  have hfiles : s.cleaned os now maxAge files = (s.expired (cutoff now maxAge)).foldl
      (fun files id => s.removeFile .ok id files) files := by
    simp only [ReceiptStore.cleaned, ReceiptStore.cleanup, dir_expire, ne_eq, hd, not_false_eq_true,
      if_true]
    exact removeFiles_eq (s := s.expire (cutoff now maxAge)) hok files
  rw [hfiles]
  exact lookup_removeFiles s p _ files

theorem mem_cleaned {os : Disk} {s : ReceiptStore X} {files : Files C.Data} {now : Time}
    {maxAge : Duration} (hd : s.dir ≠ "") (hok : Removable os s (s.expired (cutoff now maxAge)))
    {p : Path} :
    p ∈ s.cleaned os now maxAge files ↔
      p ∈ files ∧ p ∉ (s.expired (cutoff now maxAge)).map s.diskPath := by
  rw [← AList.lookup_isSome, lookup_cleaned hd hok, ← AList.lookup_isSome]
  split
  · rename_i hp; simp [hp]
  · rename_i hp; simp [hp]

/-! ## Expired for good -/

/-- What it takes for the runs of a store opened on `files` to expire for good. -/
structure ExpiresForGood (C : RunCodec X) (os : Disk) (files : Files C.Data) (s : ReceiptStore X) :
    Prop where
  /-- Every entry has a receipt. -/
  receipt : ∀ id run, s.get id = some run → run.receipt.isSome
  /-- Every entry is filed under the id whose path is that of the file it was read from, a file of the
      directory. -/
  own : ∀ id run, s.get id = some run → ∃ name, ReadFrom C os s.dir files id name run ∧
    s.diskPath id = (cleanDir s.dir).child name
  /-- A `Cleanup` removes exactly the files that the entries it removes were read from. -/
  removes : ∀ os' now maxAge, RemovalsSucceed os' s files (s.expired (cutoff now maxAge)) →
    ∀ p ∈ files, p ∉ s.cleaned os' now maxAge files ↔ ∃ id ∈ s.expired (cutoff now maxAge),
      ∃ name run, ReadFrom C os s.dir files id name run ∧ p = (cleanDir s.dir).child name
  /-- What it removed does not come back when the store is opened again. -/
  gone : ∀ os' now maxAge, RemovalsSucceed os' s files (s.expired (cutoff now maxAge)) →
    ∀ id ∈ s.expired (cutoff now maxAge), ∀ os'' s',
      newReceiptStore C os'' s.dir (s.cleaned os' now maxAge files) = .ok s' → s'.get id = none

/-- Every run file of the directory that holds a run under an id that is loaded has a receipt, and the
    name the store would give it. -/
def OwnFiles (C : RunCodec X) (os : Disk) (dir : String) (files : Files C.Data) : Prop :=
  ∀ name id run, Holds C .ok dir files name id run → (∃ name' run', Holds C os dir files name' id run') →
    run.receipt.isSome ∧ join dir (id ++ ".run.json") = (cleanDir dir).child name

/-- A file that is left after a cleanup holds what it held. -/
theorem Holds.of_cleaned {os os' : Disk} {s : ReceiptStore X} {files : Files C.Data} {now : Time}
    {maxAge : Duration} (hd : s.dir ≠ "") (hok : Removable os' s (s.expired (cutoff now maxAge)))
    {name id : String} {run : StoredRun X}
    (h : Holds C os s.dir (s.cleaned os' now maxAge files) name id run) :
    Holds C .ok s.dir files name id run := by
  obtain ⟨hname, hsuffix⟩ := mem_loadedNames.mp h.1
  obtain ⟨_, ⟨data, hdata, hrun⟩, hid⟩ := loadFile_eq_some.mp h.2
  refine ⟨mem_loadedNames.mpr ⟨((mem_cleaned hd hok).mp hname).1, hsuffix⟩, ?_⟩
  rw [lookup_cleaned hd hok] at hdata
  split at hdata
  · exact absurd hdata (by simp)
  · exact loadFile_eq_some.mpr ⟨rfl, ⟨data, hdata, hrun⟩, hid⟩

/-- A file that no removed entry is filed as is left by a cleanup. -/
theorem Holds.cleaned {os : Disk} {s : ReceiptStore X} {files : Files C.Data} {now : Time}
    {maxAge : Duration} (hd : s.dir ≠ "") (hok : Removable os s (s.expired (cutoff now maxAge)))
    (hnamed : Named files) {name id : String} {run : StoredRun X}
    (h : Holds C .ok s.dir files name id run)
    (hkept : (cleanDir s.dir).child name ∉ (s.expired (cutoff now maxAge)).map s.diskPath) :
    Holds C .ok s.dir (s.cleaned os now maxAge files) name id run := by
  obtain ⟨hname, hsuffix⟩ := mem_loadedNames.mp h.1
  obtain ⟨_, ⟨data, hdata, hrun⟩, hid⟩ := loadFile_eq_some.mp h.2
  refine ⟨mem_loadedNames.mpr ⟨(mem_cleaned hd hok).mpr ⟨hname, hkept⟩, hsuffix⟩, ?_⟩
  have hleft : (s.cleaned os now maxAge files).lookup (join s.dir name) = some data := by
    rw [lookup_cleaned hd hok, hnamed.join_of_mem hd hname, if_neg hkept]
    rw [hnamed.join_of_mem hd hname] at hdata
    exact hdata
  exact loadFile_eq_some.mpr ⟨rfl, ⟨data, hleft, hrun⟩, hid⟩

/-- **Enough**: with only such files, what is loaded expires for good. -/
theorem OwnFiles.expiresForGood {os : Disk} {dir : String} {files : Files C.Data} (hopens : Opens os dir)
    (h : OwnFiles C os dir files) : ExpiresForGood C os files (loadedStore C os dir files) := by
  have hd : (loadedStore C os dir files).dir ≠ "" := hopens.1
  -- what the condition says of an entry and the file it was read from
  have hown : ∀ {id name run}, ReadFrom C os dir files id name run → run.receipt.isSome ∧
      (loadedStore C os dir files).diskPath id = (cleanDir dir).child name :=
    fun hread => h _ _ _ hread.holds.there ⟨_, _, hread.holds⟩
  refine ⟨?_, ?_, ?_, ?_⟩
  · intro id run hget
    obtain ⟨name, hread⟩ := get_loadedStore.mp hget
    exact (hown hread).1
  · intro id run hget
    obtain ⟨name, hread⟩ := get_loadedStore.mp hget
    exact ⟨name, hread, (hown hread).2⟩
  · intro os' now maxAge hok p hp
    rw [mem_cleaned hd hok.1, not_and, not_not, List.mem_map]
    constructor
    · intro hremoved
      obtain ⟨id, hid, rfl⟩ := hremoved hp
      obtain ⟨run, hget, _⟩ := mem_expired.mp hid
      obtain ⟨name, hread⟩ := get_loadedStore.mp hget
      exact ⟨id, hid, name, run, hread, (hown hread).2⟩
    · rintro ⟨id, hid, name, run, hread, rfl⟩ _
      exact ⟨id, hid, (hown hread).2⟩
  · intro os' now maxAge hok id hid os'' s' hreopen
    rcases newReceiptStore_cases hreopen with ⟨hno, _⟩ | ⟨_, rfl⟩
    · exact absurd hno hd
    · cases hget : (loadedStore C os'' (loadedStore C os dir files).dir
          ((loadedStore C os dir files).cleaned os' now maxAge files)).get id with
      | none => rfl
      | some run =>
          -- the file the run came back from was there before, so it is the one that was removed
          obtain ⟨name, hread⟩ := get_loadedStore.mp hget
          obtain ⟨run₀, hget₀, _⟩ := mem_expired.mp hid
          obtain ⟨name₀, hread₀⟩ := get_loadedStore.mp hget₀
          have hpath := (h _ _ _ (hread.holds.of_cleaned hd hok.1) ⟨_, _, hread₀.holds⟩).2
          obtain ⟨_, hkept⟩ := (mem_cleaned hd hok.1).mp (mem_loadedNames.mp hread.holds.1).1
          exact absurd (List.mem_map.mpr ⟨id, hid, hpath⟩) hkept

/-- **Needed**: a file in another place, or without a receipt, is one too many. -/
theorem ownFiles_of_expiresForGood {os : Disk} {dir : String} {files : Files C.Data}
    (hopens : Opens os dir) (hnamed : Named files)
    (h : ExpiresForGood C os files (loadedStore C os dir files)) : OwnFiles C os dir files := by
  have hd : (loadedStore C os dir files).dir ≠ "" := hopens.1
  rintro name id run hholds ⟨name', run', hholds'⟩
  obtain ⟨name₀, run₀, hread₀⟩ := hholds'.readFrom
  have hget := get_loadedStore.mpr ⟨name₀, hread₀⟩
  -- a cleanup that removes the entry, and whose removals succeed
  let now : Time := run₀.createdAt + 1
  have hcut : run₀.createdAt < cutoff now 0 := by simp [cutoff, now]
  have hid : id ∈ (loadedStore C os dir files).expired (cutoff now 0) :=
    mem_expired.mpr ⟨run₀, hget, hcut⟩
  have hok : RemovalsSucceed .ok (loadedStore C os dir files) files
      ((loadedStore C os dir files).expired (cutoff now 0)) := by
    refine ⟨fun _ _ => rfl, fun id' hid' => ?_⟩
    obtain ⟨run'', hget'', _⟩ := mem_expired.mp hid'
    obtain ⟨name'', hread'', hpath''⟩ := h.own id' run'' hget''
    rw [hpath'']
    exact (mem_loadedNames.mp hread''.holds.1).1
  have hpath : (loadedStore C os dir files).diskPath id = (cleanDir dir).child name := by
    by_contra hother
    have hkept : (cleanDir dir).child name ∉ ((loadedStore C os dir files).expired
        (cutoff now 0)).map (loadedStore C os dir files).diskPath := by
      intro hmem
      obtain ⟨id', hid', heq⟩ := List.mem_map.mp hmem
      obtain ⟨run'', hget'', _⟩ := mem_expired.mp hid'
      obtain ⟨name'', hread'', hpath''⟩ := h.own id' run'' hget''
      obtain rfl : name = name'' := Path.child_inj (heq.symm.trans hpath'')
      obtain ⟨rfl, _⟩ := hread''.holds.there.unique hholds
      exact hother heq
    -- the file stays, and brings the id back
    obtain ⟨name₁, run₁, hread₁⟩ := (Holds.cleaned hd hok.1 hnamed hholds hkept).readFrom
    have hback := get_loadedStore.mpr ⟨name₁, hread₁⟩
    have hgone := h.gone .ok now 0 hok id hid .ok _ (newReceiptStore_of_opens ⟨hd, rfl, rfl⟩)
    rw [hgone] at hback
    exact absurd hback (by simp)
  obtain ⟨name'', hread'', hpath''⟩ := h.own id run₀ hget
  obtain rfl : name = name'' := Path.child_inj (hpath.symm.trans hpath'')
  obtain ⟨_, rfl⟩ := hread''.holds.there.unique hholds
  exact ⟨h.receipt id run₀ hget, hpath⟩

/-- A store without a directory loads nothing, and has no files to clean up. -/
theorem expiresForGood_memory (os : Disk) (files : Files C.Data) :
    ExpiresForGood C os files { dir := "", runs := ∅ } := by
  have hget : ∀ id, ({ dir := "", runs := ∅ } : ReceiptStore X).get id = none := fun id =>
    AList.lookup_empty id
  have hexpired : ∀ cut, ({ dir := "", runs := ∅ } : ReceiptStore X).expired cut = [] := fun _ => rfl
  refine ⟨?_, ?_, ?_, ?_⟩
  · intro id run hrun; rw [hget] at hrun; exact absurd hrun (by simp)
  · intro id run hrun; rw [hget] at hrun; exact absurd hrun (by simp)
  · intro os' now maxAge _ p hp
    rw [hexpired]
    simp [ReceiptStore.cleaned, ReceiptStore.cleanup, hp]
  · intro os' now maxAge _ id hid; rw [hexpired] at hid; exact absurd hid List.not_mem_nil

/-- **Which directories' runs expire for good.** Whatever a directory holds, a store opened on it has a
    receipt in every entry, files every entry as the file it was read from, removes exactly these files when
    it cleans up and does not find the runs again when it is reopened, if and only if no store is opened
    from a directory, or every run file with a loaded id has a receipt and the name of that id's file. -/
theorem expires_for_good_iff (os : Disk) (dir : String) (fs : FileSystem C.Data) :
    (∀ s, newReceiptStore C os dir fs.files = .ok s → ExpiresForGood C os fs.files s) ↔
      (Opens os dir → OwnFiles C os dir fs.files) := by
  constructor
  · intro h hopens
    exact ownFiles_of_expiresForGood hopens fs.named (h _ (newReceiptStore_of_opens hopens))
  · intro h s hs
    rcases newReceiptStore_cases hs with ⟨rfl, rfl⟩ | ⟨hopens, rfl⟩
    · exact expiresForGood_memory os fs.files
    · exact (h hopens).expiresForGood hopens

/-! ## A copy -/

/-- A directory with the file of a run, and a copy that somebody made of it. -/
def copiedFiles : Files (sampleCodec sampleX).Data :=
  AList.insert ((cleanDir "receipts").child "copy.run.json") (some writtenRun)
    (AList.insert ((cleanDir "receipts").child "696e74656e74.run.json") (some writtenRun) ∅)

theorem named_copiedFiles : Named copiedFiles := by
  have hfirst : IsName "696e74656e74.run.json" := ⟨by decide, by decide, by decide, by decide⟩
  have hcopy : IsName "copy.run.json" := ⟨by decide, by decide, by decide, by decide⟩
  exact (named_empty.insert hfirst _).insert hcopy _

/-- Both files hold the run. -/
theorem holds_copiedFiles {name : String} (h : name = "copy.run.json" ∨ name = "696e74656e74.run.json") :
    Holds (sampleCodec sampleX) .ok "receipts" copiedFiles name "696e74656e74" writtenRun := by
  rcases h with rfl | rfl
  · exact ⟨mem_loadedNames.mpr ⟨by decide, by decide⟩, rfl⟩
  · exact ⟨mem_loadedNames.mpr ⟨by decide, by decide⟩, rfl⟩

theorem mem_copiedFiles {name : String} (h : (cleanDir "receipts").child name ∈ copiedFiles) :
    name = "copy.run.json" ∨ name = "696e74656e74.run.json" := by
  rcases (AList.mem_insert _).mp h with h | h
  · exact .inl (Path.child_inj h)
  · rcases (AList.mem_insert _).mp h with h | h
    · exact .inr (Path.child_inj h)
    · exact absurd h (AList.notMem_empty _)

/-- The store that opens on them has one entry. -/
theorem get_copied {id : String} {run : StoredRun sampleX}
    (h : (loadedStore (sampleCodec sampleX) .ok "receipts" copiedFiles).get id = some run) :
    id = "696e74656e74" ∧ run = writtenRun := by
  obtain ⟨name, hread⟩ := get_loadedStore.mp h
  exact hread.holds.unique (holds_copiedFiles (mem_copiedFiles (mem_loadedNames.mp hread.holds.1).1))

def copied : FileSystem (sampleCodec sampleX).Data := ⟨copiedFiles, named_copiedFiles⟩

/-- **The run that comes back.** A run is stored, and somebody copies its file. A cleanup removes the run
    and the file that has its name, its removals succeed, and a restart finds the run in the copy. -/
theorem expired_run_returns : ∃ s s',
    newReceiptStore (sampleCodec sampleX) .ok "receipts" copied.files = .ok s ∧
      "696e74656e74" ∈ s.expired (cutoff 2 0) ∧
      RemovalsSucceed .ok s copied.files (s.expired (cutoff 2 0)) ∧
      newReceiptStore (sampleCodec sampleX) .ok "receipts" (s.cleaned .ok 2 0 copied.files) = .ok s' ∧
      (s'.get "696e74656e74").isSome ∧ ¬ ExpiresForGood (sampleCodec sampleX) .ok copied.files s := by
  have hopens : Opens .ok "receipts" := ⟨by decide, rfl, rfl⟩
  let s := loadedStore (sampleCodec sampleX) .ok "receipts" copied.files
  obtain ⟨name, run, hread⟩ := (holds_copiedFiles (.inl rfl)).readFrom
  have hget : s.get "696e74656e74" = some run := get_loadedStore.mpr ⟨name, hread⟩
  have hcut : writtenRun.createdAt < cutoff 2 0 := by decide +kernel
  have hid : "696e74656e74" ∈ s.expired (cutoff 2 0) :=
    mem_expired.mpr ⟨run, hget, by rw [(get_copied hget).2]; exact hcut⟩
  have hok : RemovalsSucceed .ok s copied.files (s.expired (cutoff 2 0)) := by
    refine ⟨fun _ _ => rfl, fun id hid => ?_⟩
    obtain ⟨run', hget', _⟩ := mem_expired.mp hid
    rw [(get_copied hget').1]
    decide
  -- the copy is not the file of any entry, so the cleanup leaves it
  have hkept : (cleanDir "receipts").child "copy.run.json" ∉ (s.expired (cutoff 2 0)).map s.diskPath := by
    intro hmem
    obtain ⟨id, hid, heq⟩ := List.mem_map.mp hmem
    obtain ⟨run', hget', _⟩ := mem_expired.mp hid
    rw [(get_copied hget').1] at heq
    exact absurd heq (by decide)
  have hleft := Holds.cleaned (s := s) hopens.1 hok.1 copied.named (holds_copiedFiles (.inl rfl)) hkept
  obtain ⟨name', run', hread'⟩ := hleft.readFrom
  have hback := get_loadedStore.mpr ⟨name', hread'⟩
  refine ⟨s, _, newReceiptStore_of_opens hopens, hid, hok, newReceiptStore_of_opens hopens, ?_, ?_⟩
  · exact Option.isSome_iff_exists.mpr ⟨run', hback⟩
  · intro h
    have hgone := h.gone .ok 2 0 hok _ hid .ok _ (newReceiptStore_of_opens hopens)
    rw [hgone] at hback
    exact absurd hback (by simp)

/-! ## The store's own directories -/

/-- A directory that only holds what the store could have written. -/
structure Tidy (o : Opened C) : Prop where
  dir_ne : o.store.dir ≠ ""
  named : Named o.files
  own : OwnFiles C .ok o.store.dir o.files

theorem OwnFiles.mono {dir : String} {files files' : Files C.Data} (h : OwnFiles C .ok dir files)
    (hsub : ∀ name id run, Holds C .ok dir files' name id run → Holds C .ok dir files name id run) :
    OwnFiles C .ok dir files' := by
  intro name id run hholds _
  exact h name id run (hsub _ _ _ hholds) ⟨name, run, hsub _ _ _ hholds⟩

/-- A file written under its run's id, with a receipt, is one more of the kind. -/
theorem OwnFiles.insert {dir : String} {files : Files C.Data} (hd : dir ≠ "") (hnamed : Named files)
    (h : OwnFiles C .ok dir files) {rec : StoredRun X} {data : C.Data} (hp : PlainId rec.id)
    (hback : C.unmarshal data = some rec) (hreceipt : rec.receipt.isSome) :
    OwnFiles C .ok dir (files.insert ((cleanDir dir).child (rec.id ++ ".run.json")) data) := by
  have hnamed' := hnamed.insert (d := cleanDir dir) (isName_of_plain hp) data
  have hpath : join dir (rec.id ++ ".run.json") = (cleanDir dir).child (rec.id ++ ".run.json") :=
    join_of_isName hd (isName_of_plain hp)
  rintro name id run hholds _
  obtain ⟨hmem, hsuffix⟩ := mem_loadedNames.mp hholds.1
  obtain ⟨_, ⟨data', hdata', hrun⟩, hid, hne⟩ := loadFile_eq_some.mp hholds.2
  rw [hnamed'.join_of_mem hd hmem] at hdata'
  by_cases hnew : name = rec.id ++ ".run.json"
  · rw [hnew, AList.lookup_insert, Option.some.injEq] at hdata'
    rw [← hdata', hback, Option.some.injEq] at hrun
    rw [← hid, ← hrun, hnew]
    exact ⟨hreceipt, hpath⟩
  · -- a file that was there before
    rw [AList.lookup_insert_ne fun heq => hnew (Path.child_inj heq)] at hdata'
    have hold : (cleanDir dir).child name ∈ files := AList.mem_iff_lookup.mpr ⟨data', hdata'⟩
    have hholds' : Holds C .ok dir files name id run := by
      refine ⟨mem_loadedNames.mpr ⟨hold, hsuffix⟩, loadFile_eq_some.mpr ⟨rfl, ?_, hid, hne⟩⟩
      rw [hnamed.join_of_mem hd hold]
      exact ⟨data', hdata', hrun⟩
    exact h name id run hholds' ⟨name, run, hholds'⟩

theorem Tidy.put {o : Opened C} (hcodec : C.RoundTrips) (h : Tidy o) {run : StoredRun X} {now : Time}
    (hvalid : (StoreOp.put run now).Valid C) : Tidy ((StoreOp.put run now).apply o) := by
  cases hprep : StoredRun.prepare now (some run) with
  | error e => rw [apply_put_refused hprep]; exact h
  | ok rec =>
      obtain ⟨hid, hreceipt, hbundle⟩ := hvalid
      have hplain : PlainId rec.id := prepare_plain (by rw [hid]; decide) hprep
      obtain ⟨run₀, receipt, receiptJSON, hrun, _, _, hrec⟩ := prepare_eq_ok hprep
      cases hrun
      obtain ⟨data, rec', hdata, hback, hsame⟩ := hcodec rec (by rw [hrec]; exact hreceipt)
        (by rw [hrec]; exact hbundle)
      have hreceipt' : rec'.receipt.isSome := by rw [hsame.receipt, hrec]; exact hreceipt
      rw [apply_put h.dir_ne hprep hdata, diskPath_of_plain h.dir_ne hplain]
      refine ⟨h.dir_ne, h.named.insert (isName_of_plain hplain) data, ?_⟩
      rw [← hsame.id] at hplain ⊢
      exact h.own.insert h.dir_ne h.named hplain hback hreceipt'

theorem Tidy.cleanup {o : Opened C} (h : Tidy o) (now : Time) (maxAge : Duration) :
    Tidy ((StoreOp.cleanup now maxAge).apply o) := by
  have hok : Removable .ok o.store (o.store.expired (cutoff now maxAge)) := fun _ _ => rfl
  have hdir : ((StoreOp.cleanup now maxAge).apply o).store.dir = o.store.dir := by
    rw [apply_cleanup h.dir_ne]
    rfl
  have hfiles : ((StoreOp.cleanup now maxAge).apply o).files = o.store.cleaned .ok now maxAge o.files := rfl
  refine ⟨by rw [hdir]; exact h.dir_ne, ?_, ?_⟩
  · rw [hfiles]
    exact h.named.mono fun p hp => ((mem_cleaned h.dir_ne hok).mp hp).1
  · rw [hdir, hfiles]
    exact h.own.mono fun name id run hholds => hholds.of_cleaned h.dir_ne hok

theorem Tidy.reopen {o : Opened C} (h : Tidy o) : Tidy (StoreOp.apply o .reopen) := by
  show Tidy (openStore C o.store.dir o.files)
  rw [openStore_eq _ _ h.dir_ne]
  exact ⟨h.dir_ne, h.named, h.own⟩

/-- **One call** keeps a directory tidy. -/
theorem Tidy.step {o : Opened C} (hcodec : C.RoundTrips) (h : Tidy o) (op : StoreOp X)
    (hvalid : op.Valid C) : Tidy (op.apply o) := by
  cases op with
  | put run now => exact h.put hcodec hvalid
  | cleanup now maxAge => exact h.cleanup now maxAge
  | reopen => exact h.reopen

/-- **Every history** keeps a directory tidy. -/
theorem tidy_history (hcodec : C.RoundTrips) {dir : String} {fs : FileSystem C.Data} (hd : dir ≠ "")
    (hown : OwnFiles C .ok dir fs.files) : ∀ ops : List (StoreOp X), (∀ op ∈ ops, op.Valid C) →
      Tidy (history C dir fs.files ops) := by
  intro ops
  induction ops using List.reverseRecOn with
  | nil =>
      intro _
      show Tidy (openStore C dir fs.files)
      rw [openStore_eq _ _ hd]
      exact ⟨hd, fs.named, hown⟩
  | append_singleton ops op ih =>
      intro hvalid
      rw [history, List.foldl_append, List.foldl_cons, List.foldl_nil]
      exact (ih fun op' hop' => hvalid op' (List.mem_append_left _ hop')).step hcodec op
        (hvalid op (List.mem_append_right _ (List.mem_singleton_self op)))

/-- **Whatever the store did since**, a restart on a directory that was tidy once has runs that expire for
    good. -/
theorem history_expires_for_good (hcodec : C.RoundTrips) {dir : String} {fs : FileSystem C.Data}
    (hd : dir ≠ "") (hown : OwnFiles C .ok dir fs.files) {ops : List (StoreOp X)}
    (hvalid : ∀ op ∈ ops, op.Valid C) :
    ExpiresForGood C .ok (history C dir fs.files ops).files
      (StoreOp.apply (history C dir fs.files ops) .reopen).store := by
  have h := tidy_history hcodec hd hown ops hvalid
  generalize history C dir fs.files ops = o at h ⊢
  show ExpiresForGood C .ok o.files (openStore C o.store.dir o.files).store
  rw [openStore_eq _ _ h.dir_ne]
  exact h.own.expiresForGood ⟨h.dir_ne, rfl, rfl⟩

end Api
end InfrixPlayground
