import InfrixPlayground.Api.StoreHistory

/-!
# `Api.FailedPut` — what a `Put` that fails leaves behind

A `Put` can fail before it reaches the map, or at the disk after the map has the run, and a failed write
can leave anything between the old file and the new one. `put_error` says once what a failed `Put` has
done; `failed_put_unchanged_iff` says when that is nothing a caller or a restart could notice.
-/

namespace InfrixPlayground
namespace Api

open GoText FilePath

variable {X : Externals} {C : RunCodec X}

/-! ## What can be noticed -/

/-- A store opened on either directory loads the same runs. -/
def LoadsAs (C : RunCodec X) (dir : String) (files files' : Files C.Data) : Prop :=
  ∀ id, (openStore C dir files').store.get id = (openStore C dir files).store.get id

theorem LoadsAs.refl (dir : String) (files : Files C.Data) : LoadsAs C dir files files := fun _ => rfl

/-- `Get`, `Count` and what a reopened store would load are as before. -/
structure Unchanged (o o' : Opened C) : Prop where
  get : ∀ id, o'.store.get id = o.store.get id
  count : o'.store.count = o.store.count
  loads : LoadsAs C o.store.dir o.files o'.files

/-- A `Put` whose disk operations go as the system says. -/
def Opened.put (o : Opened C) (os : Disk) (now : Time) (run : Option (StoredRun X)) :
    Opened C × Option String :=
  let r := o.store.put C os now run o.files
  ({ store := r.1, files := r.2.1 }, r.2.2.2)

/-! ## What a failed `Put` has done -/

/-- There is no run, it has no receipt, or its receipt cannot be encoded. -/
def Unstorable (run : Option (StoredRun X)) : Prop :=
  ∀ r receipt, run = some r → r.receipt = some receipt → ∃ e, X.marshalReceipt receipt = .error e

/-- `rec` is `run` with the id and the creation time filled in. -/
def AsStored (now : Time) (run : Option (StoredRun X)) (rec : StoredRun X) : Prop :=
  ∃ r receipt receiptJSON, run = some r ∧ r.receipt = some receipt ∧
    X.marshalReceipt receipt = .ok receiptJSON ∧
    rec = { r with
      id := if r.id = "" then deriveID X receiptJSON else r.id
      createdAt := if r.createdAt = zeroTime then now else r.createdAt }

theorem prepare_error_iff {now : Time} {run : Option (StoredRun X)} :
    (∃ e, StoredRun.prepare now run = .error e) ↔ Unstorable run := by
  constructor
  · rintro ⟨e, he⟩ r receipt rfl hr
    simp only [StoredRun.prepare, hr] at he
    cases hm : X.marshalReceipt receipt with
    | error e' => exact ⟨e', rfl⟩
    | ok receiptJSON => rw [hm] at he; exact absurd he (by simp)
  · intro h
    cases run with
    | none => exact ⟨_, rfl⟩
    | some r =>
        cases hr : r.receipt with
        | none => simp [StoredRun.prepare, hr]
        | some receipt =>
            obtain ⟨e, he⟩ := h r receipt rfl hr
            simp [StoredRun.prepare, hr, he]

theorem prepare_ok_iff {now : Time} {run : Option (StoredRun X)} {rec : StoredRun X} :
    StoredRun.prepare now run = .ok rec ↔ AsStored now run rec := by
  constructor
  · exact prepare_eq_ok
  · rintro ⟨r, receipt, receiptJSON, rfl, hr, hm, rfl⟩
    simp only [StoredRun.prepare, hr, hm]

/-- The files a failed write leaves, for a run that can be encoded. -/
inductive WriteFailed (C : RunCodec X) (os : Disk) (s : ReceiptStore X) (rec : StoredRun X)
    (files : Files C.Data) : Files C.Data → Prop where
  | mk {data : C.Data} {e : String} {remains : Remains} (hdata : C.marshalIndent rec = .ok data)
      (hw : os.writeFile = some (e, remains)) :
      WriteFailed C os s rec files (remains.leave C (s.diskPath rec.id) data files)

/-- What a `Put` that failed has done. -/
inductive PutFailed (os : Disk) (now : Time) (run : Option (StoredRun X)) (o : Opened C) :
    Opened C → Prop where
  | refused (h : Unstorable run) : PutFailed os now run o o
  | notEncoded {rec : StoredRun X} {e : String} (h : AsStored now run rec)
      (he : C.marshalIndent rec = .error e) :
      PutFailed os now run o { o with store := o.store.insert rec }
  | notWritten {rec : StoredRun X} {files : Files C.Data} (h : AsStored now run rec)
      (hw : WriteFailed C os o.store rec o.files files) :
      PutFailed os now run o ⟨o.store.insert rec, files⟩

theorem put_error {os : Disk} {now : Time} {run : Option (StoredRun X)} {o : Opened C} {e : String}
    (herr : (o.put os now run).2 = some e) : PutFailed os now run o (o.put os now run).1 := by
  cases hprep : StoredRun.prepare now run with
  | error e' =>
      have ho : (o.put os now run).1 = o := by simp only [Opened.put, ReceiptStore.put, hprep]
      rw [ho]
      exact .refused (prepare_error_iff.mp ⟨e', hprep⟩)
  | ok rec =>
      have hrec := prepare_ok_iff.mp hprep
      simp only [Opened.put, ReceiptStore.put, hprep, ReceiptStore.persist] at herr ⊢
      by_cases hd : o.store.dir = ""
      · simp [hd] at herr
      · cases hdata : C.marshalIndent rec with
        | error e' => simp only [dir_insert, ne_eq, hd, not_false_eq_true, if_true]
                      exact .notEncoded hrec hdata
        | ok data =>
            cases hw : os.writeFile with
            | none => simp [hd, hdata, hw] at herr
            | some failure =>
                simp only [dir_insert, ne_eq, hd, not_false_eq_true, if_true, diskPath_insert]
                exact .notWritten hrec (.mk hdata hw)

/-! ## What a restart makes of a failed write -/

/-- The names of the files a store loads, in the order it loads them. -/
def loadedNames (files : Files C.Data) (dir : String) : List String :=
  ((readDir files dir).filter fun name => hasSuffix name ".run.json").mergeSort
    fun a b => decide (a ≤ b)

theorem nodup_loadedNames (files : Files C.Data) (dir : String) :
    (loadedNames files dir).Nodup := by
  refine (List.mergeSort_perm _ _).nodup_iff.mpr (List.Nodup.filter _ ?_)
  refine List.Nodup.filterMap ?_ files.keys_nodup
  intro p p' name h h'
  rw [childName_eq_some.mp h, childName_eq_some.mp h']

theorem mem_loadedNames {files : Files C.Data} {dir name : String} :
    name ∈ loadedNames files dir ↔ (cleanDir dir).child name ∈ files ∧
      hasSuffix name ".run.json" = true := by
  rw [loadedNames, List.mem_mergeSort, List.mem_filter, mem_readDir]

/-- The run that a text is loaded as. -/
def RunCodec.loads (C : RunCodec X) (text : Option C.Data) : Option (StoredRun X) :=
  (text.bind C.unmarshal).filter fun run => run.id ≠ ""

/-- The run that some files of the directory give an id: the last that loads under it. -/
def givenBy (C : RunCodec X) (dir : String) (files : Files C.Data) (names : List String) (id : String) :
    Option (StoredRun X) :=
  (AList.insertAll (loadFile C .ok dir files) ∅ names).lookup id

/-- The files of the directory that are loaded before one. -/
def earlierNames (files : Files C.Data) (dir name : String) : List String :=
  (loadedNames files dir).filter fun other => other < name

/-- The files of the directory that are loaded after one. -/
def laterNames (files : Files C.Data) (dir name : String) : List String :=
  (loadedNames files dir).filter fun other => name < other

/-- It makes no difference to what the directory loads whether the text of its file `name` is loaded as `before` or as
    `after`: under each id a later file has the last word, or the two say the same, the earlier files speaking for
    one that says nothing. -/
def Unnoticed (C : RunCodec X) (dir : String) (files : Files C.Data) (name : String)
    (before after : Option (StoredRun X)) : Prop :=
  ∀ id, (givenBy C dir files (laterNames files dir name) id).isSome = true ∨
    (before.filter fun run => run.id = id).or (givenBy C dir files (earlierNames files dir name) id)
      = (after.filter fun run => run.id = id).or (givenBy C dir files (earlierNames files dir name) id)

theorem Unnoticed.refl (dir : String) (files : Files C.Data) (name : String) (run : Option (StoredRun X)) :
    Unnoticed C dir files name run run := fun _ => .inr rfl

/-- What a file called by a name is loaded as. -/
theorem loadFile_of_isName {dir name : String} (hd : dir ≠ "") (h : IsName name) (files : Files C.Data) :
    loadFile C .ok dir files name
      = (C.loads (files.lookup ((cleanDir dir).child name))).map fun run => (run.id, run) := by
  rw [loadFile, join_of_isName hd h, RunCodec.loads]
  cases (files.lookup ((cleanDir dir).child name)).bind C.unmarshal with
  | none => rfl
  | some run => by_cases hid : run.id = "" <;> simp [hid, Disk.ok]

theorem sorted_loadedNames (files : Files C.Data) (dir : String) : (loadedNames files dir).Pairwise (· < ·) :=
  ((List.pairwise_mergeSort' (· ≤ ·) _).and (nodup_loadedNames files dir)).imp fun h => lt_of_le_of_ne h.1 h.2

/-- An ascending list, cut at one element. -/
theorem cut_at {α : Type*} [LinearOrder α] {l : List α} (h : l.Pairwise (· < ·)) (a : α) :
    l = (l.filter fun x => x < a) ++ (l.filter fun x => x = a) ++ l.filter fun x => a < x := by
  induction l with
  | nil => rfl
  | cons x l ih =>
      obtain ⟨hx, hl⟩ := List.pairwise_cons.mp h
      -- from `x` on, everything is above `a` if `x` is
      have habove : a ≤ x → (l.filter fun y => y < a) = [] ∧ (l.filter fun y => y = a) = [] ∧
          (l.filter fun y => a < y) = l := fun hle =>
        ⟨List.filter_eq_nil_iff.mpr fun y hy => by simpa using hle.trans (hx y hy).le,
          List.filter_eq_nil_iff.mpr fun y hy => by simpa using (hle.trans_lt (hx y hy)).ne',
          List.filter_eq_self.mpr fun y hy => by simpa using hle.trans_lt (hx y hy)⟩
      rcases lt_trichotomy x a with hlt | rfl | hgt
      · simp [hlt, hlt.ne, hlt.not_gt, ← ih hl]
      · simp [habove le_rfl]
      · simp [hgt, hgt.ne', hgt.not_gt, habove hgt.le]

/-- **What a directory loads, around one of its files**: under each id the later files have the last word, then the
    file itself, then the earlier ones. -/
theorem get_openStore_around {dir name : String} (hd : dir ≠ "") (hname : IsName name)
    (hsuffix : hasSuffix name ".run.json" = true) (files : Files C.Data) (id : String) :
    (openStore C dir files).store.get id = (givenBy C dir files (laterNames files dir name) id).or
      (((C.loads (files.lookup ((cleanDir dir).child name))).filter fun run => run.id = id).or
        (givenBy C dir files (earlierNames files dir name) id)) := by
  have hown : givenBy C dir files ((loadedNames files dir).filter fun other => other = name) id
      = (C.loads (files.lookup ((cleanDir dir).child name))).filter fun run => run.id = id := by
    by_cases hmem : name ∈ loadedNames files dir
    · have hsingle : ((loadedNames files dir).filter fun other => other = name) = [name] := by
        rw [List.filter_eq, List.count_eq_one_of_mem (nodup_loadedNames files dir) hmem, List.replicate_one]
      rw [hsingle, givenBy, AList.insertAll, List.foldl_cons, List.foldl_nil, loadFile_of_isName hd hname]
      cases C.loads (files.lookup ((cleanDir dir).child name)) with
      | none => rfl
      | some run =>
          simp only [Option.map_some, AList.lookup_insert_eq, Option.filter_some, decide_eq_true_eq, eq_comm (a := id)]
          split <;> rfl
    · have hnone : ((loadedNames files dir).filter fun other => other = name) = [] :=
        List.filter_eq_nil_iff.mpr fun other hother => by
          rw [decide_eq_true_eq]; rintro rfl; exact hmem hother
      have habsent : files.lookup ((cleanDir dir).child name) = none := by
        rw [AList.lookup_eq_none]
        exact fun hin => hmem (mem_loadedNames.mpr ⟨hin, hsuffix⟩)
      rw [hnone, habsent]
      rfl
  rw [openStore_eq dir files hd]
  show (AList.insertAll _ ∅ (loadedNames files dir)).lookup id = _
  rw [cut_at (sorted_loadedNames files dir) name, AList.insertAll_append, AList.lookup_insertAll_or,
    AList.insertAll_append, AList.lookup_insertAll_or ((loadedNames files dir).filter fun other => other = name), ← hown]
  rfl

/-- A failed write leaves every other file alone. -/
theorem lookup_leave_ne {path p : Path} {data : C.Data} {files : Files C.Data} (remains : Remains)
    (h : p ≠ path) : (remains.leave C path data files).lookup p = files.lookup p := by
  cases remains with
  | old => rfl
  | absent => exact AList.lookup_erase_ne h
  | truncated n => exact AList.lookup_insert_ne h
  | complete => exact AList.lookup_insert_ne h

/-- What a failed write leaves in the file, where the text was `old`. -/
def Remains.text (C : RunCodec X) (data : C.Data) (old : Option C.Data) : Remains → Option C.Data
  | .old => old
  | .absent => none
  | .truncated n => some (C.truncate n data)
  | .complete => some data

theorem lookup_leave {path : Path} {data : C.Data} {files : Files C.Data} (remains : Remains) :
    (remains.leave C path data files).lookup path = remains.text C data (files.lookup path) := by
  cases remains with
  | old => rfl
  | absent => exact AList.lookup_erase path files
  | truncated n => exact AList.lookup_insert files
  | complete => exact AList.lookup_insert files

/-- Files that are the same are loaded the same. -/
theorem givenBy_same {dir : String} (hd : dir ≠ "") {files files' : Files C.Data} (hnamed : Named files)
    (keep : String → Bool) (hsame : ∀ name, keep name = true →
      files'.lookup ((cleanDir dir).child name) = files.lookup ((cleanDir dir).child name)) (id : String) :
    givenBy C dir files' ((loadedNames files' dir).filter keep) id
      = givenBy C dir files ((loadedNames files dir).filter keep) id := by
  have hnames : (loadedNames files' dir).filter keep = (loadedNames files dir).filter keep := by
    refine List.Perm.eq_of_pairwise' ((sorted_loadedNames files' dir).filter _) ((sorted_loadedNames files dir).filter _) ?_
    refine (List.perm_ext_iff_of_nodup ((nodup_loadedNames files' dir).filter _)
      ((nodup_loadedNames files dir).filter _)).mpr fun name => ?_
    simp only [List.mem_filter, mem_loadedNames, ← AList.lookup_isSome]
    constructor
    · rintro ⟨⟨hin, hsuffix⟩, hk⟩; exact ⟨⟨hsame name hk ▸ hin, hsuffix⟩, hk⟩
    · rintro ⟨⟨hin, hsuffix⟩, hk⟩; exact ⟨⟨(hsame name hk).symm ▸ hin, hsuffix⟩, hk⟩
  rw [givenBy, givenBy, hnames, AList.insertAll_congr]
  intro name hmem
  obtain ⟨hin, hk⟩ := List.mem_filter.mp hmem
  have hname := hnamed _ _ (mem_loadedNames.mp hin).1
  rw [loadFile_of_isName hd hname, loadFile_of_isName hd hname, hsame name hk]

/-- **When a change of one file goes unnoticed by a restart.** -/
theorem loadsAs_iff {dir name : String} (hd : dir ≠ "") (hname : IsName name)
    (hsuffix : hasSuffix name ".run.json" = true) {files : Files C.Data} (files' : Files C.Data) (hnamed : Named files)
    (hother : ∀ p, p ≠ (cleanDir dir).child name → files'.lookup p = files.lookup p) :
    LoadsAs C dir files files' ↔ Unnoticed C dir files name (C.loads (files.lookup ((cleanDir dir).child name)))
      (C.loads (files'.lookup ((cleanDir dir).child name))) := by
  refine forall_congr' fun id => ?_
  have hsame : ∀ {keep : String → Bool}, keep name = false → ∀ other, keep other = true →
      files'.lookup ((cleanDir dir).child other) = files.lookup ((cleanDir dir).child other) := by
    intro keep hkeep other hk
    refine hother _ fun heq => ?_
    rw [Path.child_inj heq, hkeep] at hk
    cases hk
  rw [get_openStore_around hd hname hsuffix, get_openStore_around hd hname hsuffix files, laterNames, earlierNames,
    givenBy_same hd hnamed _ (hsame (by simp)) id, givenBy_same hd hnamed _ (hsame (by simp)) id, ← laterNames, ← earlierNames]
  cases givenBy C dir files (laterNames files dir name) id with
  | some run => simp
  | none => simp [eq_comm]

/-- A change of a file outside the directory is not noticed at all. -/
theorem loadsAs_of_outside {dir : String} (hd : dir ≠ "") {files files' : Files C.Data} (hnamed : Named files)
    (hsame : ∀ name, files'.lookup ((cleanDir dir).child name) = files.lookup ((cleanDir dir).child name)) :
    LoadsAs C dir files files' := by
  intro id
  have hall := givenBy_same hd hnamed (fun _ => true) (fun name _ => hsame name) id
  rw [List.filter_true, List.filter_true] at hall
  rw [openStore_eq dir files' hd, openStore_eq dir files hd]
  exact hall

/-! ## When that is nothing -/

/-- Inserting a run that is already there changes no answer of the map. -/
theorem get_insert_of_held {s : ReceiptStore X} {rec : StoredRun X} (h : s.get rec.id = some rec)
    (id : String) : (s.insert rec).get id = s.get id := by
  rw [get_insert]
  split
  · rename_i hid; rw [hid, h]
  · rfl

theorem count_insert_of_held {s : ReceiptStore X} {rec : StoredRun X} (h : s.get rec.id = some rec) :
    (s.insert rec).count = s.count := by
  have hcount : ∀ s : ReceiptStore X, s.count = AList.countP (fun _ => true) s.runs :=
    fun s => (congrFun List.countP_true _).symm
  rw [hcount, hcount]
  exact Nat.add_right_cancel (AList.countP_insert_old (p := fun _ => true) h)

/-- The failed write of a run's file makes no difference to what its directory loads. -/
def WriteUnnoticed (C : RunCodec X) (os : Disk) (s : ReceiptStore X) (files : Files C.Data) (rec : StoredRun X) : Prop :=
  ∀ data e remains, C.marshalIndent rec = .ok data → os.writeFile = some (e, remains) →
    ∀ name, s.diskPath rec.id = (cleanDir s.dir).child name →
      Unnoticed C s.dir files name (C.loads (files.lookup (s.diskPath rec.id)))
        (C.loads (remains.text C data (files.lookup (s.diskPath rec.id))))

theorem writeUnnoticed_iff {os : Disk} {s : ReceiptStore X} {rec : StoredRun X} {files files' : Files C.Data}
    (hd : s.dir ≠ "") (hnamed : Named files) (hw : WriteFailed C os s rec files files') :
    LoadsAs C s.dir files files' ↔ WriteUnnoticed C os s files rec := by
  obtain @⟨data, e, remains, hdata, hos⟩ := hw
  have hunique : WriteUnnoticed C os s files rec ↔ ∀ name, s.diskPath rec.id = (cleanDir s.dir).child name →
      Unnoticed C s.dir files name (C.loads (files.lookup (s.diskPath rec.id)))
        (C.loads (remains.text C data (files.lookup (s.diskPath rec.id)))) := by
    constructor
    · exact fun h => h data e remains hdata hos
    · intro h data' e' remains' hdata' hos'
      cases Except.ok.inj (hdata.symm.trans hdata')
      cases Option.some.inj (hos.symm.trans hos')
      exact h
  rw [hunique]
  by_cases hin : ∃ name, s.diskPath rec.id = (cleanDir s.dir).child name
  · obtain ⟨name, hpath⟩ := hin
    obtain ⟨part, hpart, hlast⟩ := getLast_join s.dir rec.id (show '/' ∉ ".run.json".toList by decide)
      fun part hpart => isName_of_plain hpart
    have hname : name = part ++ ".run.json" := by
      have : (s.diskPath rec.id).parts.getLast? = some name := by rw [hpath]; simp [Path.child]
      rw [ReceiptStore.diskPath, hlast] at this
      exact (Option.some.inj this).symm
    have hiff := loadsAs_iff (C := C) hd (hname ▸ isName_of_plain hpart) (hname ▸ hasSuffix_append part ".run.json")
      (remains.leave C (s.diskPath rec.id) data files) hnamed
      fun p hp => lookup_leave_ne remains (hpath ▸ hp)
    rw [hiff, ← hpath, lookup_leave]
    constructor
    · rintro h name' hpath'
      rw [← Path.child_inj (hpath.symm.trans hpath')]
      exact h
    · exact fun h => h name hpath
  · refine iff_of_true (loadsAs_of_outside hd hnamed fun name => ?_) fun name hpath => absurd ⟨name, hpath⟩ hin
    exact lookup_leave_ne remains fun heq => hin ⟨name, heq.symm⟩

/-- **When a failed `Put` has had no effect.** Exactly when it failed before the map (no run, no receipt,
    or one that cannot be encoded), or the map already held the very record and, if it can be encoded, the text that
    the failed write leaves of the run's file makes no difference in the directory it was written to. -/
theorem failed_put_unchanged_iff {os : Disk} {now : Time} {run : Option (StoredRun X)} {s : ReceiptStore X}
    {fs : FileSystem C.Data} {e : String} (herr : ((⟨s, fs.files⟩ : Opened C).put os now run).2 = some e) :
    Unchanged ⟨s, fs.files⟩ ((⟨s, fs.files⟩ : Opened C).put os now run).1 ↔
      Unstorable run ∨ ∃ rec, AsStored now run rec ∧ s.get rec.id = some rec ∧
        WriteUnnoticed C os s fs.files rec := by
  have hdir : ¬ Unstorable run → s.dir ≠ "" := fun hno hd => by
    cases hprep : StoredRun.prepare now run with
    | error e' => exact hno (prepare_error_iff.mp ⟨e', hprep⟩)
    | ok rec => simp [Opened.put, ReceiptStore.put, hprep, hd] at herr
  have hfailed := put_error herr
  generalize ((⟨s, fs.files⟩ : Opened C).put os now run).1 = o' at hfailed
  -- the record is determined by the arguments
  have hunique : ∀ {rec rec'}, AsStored now run rec → AsStored now run rec' → rec = rec' :=
    fun h h' => Except.ok.inj ((prepare_ok_iff.mpr h).symm.trans (prepare_ok_iff.mpr h'))
  have hstorable : ∀ {rec}, AsStored now run rec → ¬ Unstorable run := by
    intro rec h hno
    obtain ⟨e, he⟩ := prepare_error_iff.mpr hno
    rw [prepare_ok_iff.mpr h] at he
    exact absurd he (by simp)
  cases hfailed with
  | refused h => exact ⟨fun _ => .inl h, fun _ => ⟨fun _ => rfl, rfl, .refl _ _⟩⟩
  | @notEncoded rec e hrec he =>
      constructor
      · intro hsame
        refine .inr ⟨rec, hrec, ?_, ?_⟩
        · rw [← hsame.get]; exact (get_insert ..).trans (if_pos rfl)
        · intro data _ _ hdata; rw [he] at hdata; exact absurd hdata (by simp)
      · rintro (hno | ⟨rec', hrec', hheld, _⟩)
        · exact absurd hno (hstorable hrec)
        · cases hunique hrec hrec'
          exact ⟨get_insert_of_held hheld, count_insert_of_held hheld, .refl _ _⟩
  | @notWritten rec files hrec hw =>
      have hiff := writeUnnoticed_iff (hdir (hstorable hrec)) fs.named hw
      constructor
      · intro hsame
        refine .inr ⟨rec, hrec, ?_, hiff.mp hsame.loads⟩
        rw [← hsame.get]; exact (get_insert ..).trans (if_pos rfl)
      · rintro (hno | ⟨rec', hrec', hheld, hloads⟩)
        · exact absurd hno (hstorable hrec)
        · cases hunique hrec hrec'
          exact ⟨get_insert_of_held hheld, count_insert_of_held hheld, hiff.mpr hloads⟩

/-- A disk that is full: the write fails and leaves `remains`. -/
def fullDisk (remains : Remains) : Disk :=
  { Disk.ok with writeFile := some ("no space left on device", remains) }

/-- The run of the stand-in as a store has it. -/
def writtenRun : StoredRun sampleX := { sampleRun "golden-escrow" with id := "696e74656e74", createdAt := 1 }

/-- A directory in which its file was cut. -/
def cutFiles : FileSystem (sampleCodec sampleX).Data where
  files := AList.insert ((cleanDir "receipts").child "696e74656e74.run.json") none ∅
  named := named_empty.insert (isName_of_plain (show PlainId "696e74656e74" by decide)) _

/-- The run is put again after its file was cut on a full disk, and the disk is still full: the map has it already, and
    what is left decodes to nothing, as before. -/
theorem failed_put_unchanged_iff_retry : ∃ (s : ReceiptStore sampleX) (e : String),
    s.get "696e74656e74" = some writtenRun ∧
      ((⟨s, cutFiles.files⟩ : Opened (sampleCodec sampleX)).put (fullDisk (.truncated 7)) 2 (some writtenRun)).2
        = some e ∧
      Unchanged ⟨s, cutFiles.files⟩
        ((⟨s, cutFiles.files⟩ : Opened (sampleCodec sampleX)).put (fullDisk (.truncated 7)) 2 (some writtenRun)).1 := by
  let s : ReceiptStore sampleX := { dir := "receipts", runs := AList.insert writtenRun.id writtenRun ∅ }
  have hget : s.get writtenRun.id = some writtenRun := AList.lookup_insert _
  have hstored : AsStored 2 (some writtenRun) writtenRun :=
    ⟨writtenRun, _, _, rfl, rfl, rfl, by simp [writtenRun, zeroTime]⟩
  have hpath : s.diskPath writtenRun.id = (cleanDir "receipts").child "696e74656e74.run.json" :=
    diskPath_of_plain (by decide) (by decide)
  obtain ⟨e, he⟩ : ∃ e, ((⟨s, cutFiles.files⟩ : Opened (sampleCodec sampleX)).put (fullDisk (.truncated 7)) 2
      (some writtenRun)).2 = some e := ⟨_, rfl⟩
  refine ⟨s, e, hget, he, (failed_put_unchanged_iff he).mpr (.inr ⟨writtenRun, hstored, hget, ?_⟩)⟩
  intro data e' remains _ hos name _
  cases hos
  have hcut : cutFiles.files.lookup (s.diskPath writtenRun.id) = some none := by
    rw [hpath]
    exact AList.lookup_insert _
  rw [hcut]
  exact .refl _ _ _ _

/-- **The failure that is noticed.** The disk is full when a first run is put: the caller is told that it
    could not be stored, and `Get` shows it. -/
theorem failed_put_shown : ∃ (o : Opened (sampleCodec sampleX)),
    (o.put (fullDisk .absent) 1 (some (sampleRun "golden-escrow"))).2
        = some "playground: persist run: no space left on device" ∧
      o.store.get "696e74656e74" = none ∧
      ((o.put (fullDisk .absent) 1 (some (sampleRun "golden-escrow"))).1.store.get
        "696e74656e74").isSome ∧
      ¬ Unchanged o (o.put (fullDisk .absent) 1 (some (sampleRun "golden-escrow"))).1 := by
  let o : Opened (sampleCodec sampleX) := ⟨⟨"receipts", ∅⟩, ∅⟩
  have hshown : ((o.put (fullDisk .absent) 1 (some (sampleRun "golden-escrow"))).1.store.get
      "696e74656e74").isSome = true := by decide +kernel
  refine ⟨o, by decide +kernel, rfl, hshown, fun h => ?_⟩
  rw [h.get] at hshown
  exact absurd hshown (by decide)

end Api
end InfrixPlayground
