import Mathlib.Algebra.Order.Ring.Rat
import Mathlib.Data.String.Basic
import InfrixPlayground.Externals
import InfrixPlayground.Lib.AssocMap
import InfrixPlayground.Lib.FilePath

/-!
# `Api.Receipts` — the receipt store

Completed runs, keyed by a content-derived id, in memory and, when a directory is configured, on disk.
`Put` and `Cleanup` change the map under the lock and the files after it: the two halves are definitions
of their own (`insert`/`persist`, `expire`/`removeFile`), put together here as the sequential operations
and in `Api.StoreSys` as the atomic steps of concurrent callers.
-/

namespace InfrixPlayground
namespace Api

open GoText FilePath

/-- One completed playground run; the receipt is a pointer. -/
structure StoredRun (X : Externals) where
  id : String
  mode : String
  flow : String
  network : String
  proofLabel : String
  createdAt : Time
  receipt : Option X.Receipt
  bundleJSON : Bytes

/-- `time.Time{}`, the zero of the clock. -/
def zeroTime : Time := 0

/-- `encoding/json` on stored runs, the first bytes of an encoding, and what a raw message means as a
    JSON value (if it is valid). -/
structure RunCodec (X : Externals) where
  Data : Type
  marshalIndent : StoredRun X → Except String Data
  unmarshal : Data → Option (StoredRun X)
  truncate : Nat → Data → Data
  Value : Type
  value : Bytes → Option Value

/-- What a failed `os.WriteFile` leaves in the file: `WriteFile` opens it for truncation, writes and
    closes it, and each of the three can fail. -/
inductive Remains where
  | old
  | absent
  | truncated (n : Nat)
  | complete

/-- What the operating system answers to the disk operations of the store: an error, if any, and what is
    left of a file whose write failed. -/
structure Disk where
  mkdirAll : Option String
  readDir : Option String
  unreadable : Path → Bool
  writeFile : Option (String × Remains)
  unremovable : Path → Bool

/-- Every disk operation succeeds. -/
def Disk.ok : Disk :=
  { mkdirAll := none, readDir := none, unreadable := fun _ => false, writeFile := none,
    unremovable := fun _ => false }

/-- The store: its directory (empty for memory only) and its map. -/
structure ReceiptStore (X : Externals) where
  dir : String
  runs : AList fun _ : String => StoredRun X

variable {X : Externals}

/-! ## Put -/

/-- A short hex prefix of the SHA-256 of the receipt. -/
def deriveID (X : Externals) (receiptJSON : Bytes) : String :=
  String.ofList ((hexEncodeToString (X.sha256 receiptJSON).toList).toList.take 12)

/-- `Put` before the lock: refuse a nil run, fill in the id and the creation time. -/
def StoredRun.prepare (now : Time) (run : Option (StoredRun X)) : Except String (StoredRun X) :=
  match run with
  | none => .error "playground: cannot store a nil run/receipt"
  | some run =>
    match run.receipt with
    | none => .error "playground: cannot store a nil run/receipt"
    | some receipt =>
      match X.marshalReceipt receipt with
      | .error e => .error ("playground: encode receipt: " ++ e)
      | .ok receiptJSON =>
        .ok { run with
          id := if run.id = "" then deriveID X receiptJSON else run.id
          createdAt := if run.createdAt = zeroTime then now else run.createdAt }

/-- `Put` under the lock. -/
def ReceiptStore.insert (s : ReceiptStore X) (run : StoredRun X) : ReceiptStore X :=
  { s with runs := s.runs.insert run.id run }

def ReceiptStore.diskPath (s : ReceiptStore X) (id : String) : Path := join s.dir (id ++ ".run.json")

/-- The files after a write of `data` to `path` that failed. -/
def Remains.leave (C : RunCodec X) (path : Path) (data : C.Data) (files : Files C.Data) :
    Remains → Files C.Data
  | .old => files
  | .absent => files.erase path
  | .truncated n => files.insert path (C.truncate n data)
  | .complete => files.insert path data

/-- Write a run's file: the files afterwards, and an error if there is one. -/
def ReceiptStore.persist (C : RunCodec X) (os : Disk) (s : ReceiptStore X) (run : StoredRun X)
    (files : Files C.Data) : Files C.Data × Option String :=
  match C.marshalIndent run with
  | .error e => (files, some ("playground: encode stored run: " ++ e))
  | .ok data =>
    match os.writeFile with
    | some (e, remains) =>
      (remains.leave C (s.diskPath run.id) data files, some ("playground: persist run: " ++ e))
    | none => (files.insert (s.diskPath run.id) data, none)

/-- Store a run and return its id, and an error if there is one. -/
def ReceiptStore.put (C : RunCodec X) (os : Disk) (now : Time) (run : Option (StoredRun X))
    (s : ReceiptStore X) (files : Files C.Data) :
    ReceiptStore X × Files C.Data × String × Option String :=
  match StoredRun.prepare now run with
  | .error e => (s, files, "", some e)
  | .ok run =>
    let s := s.insert run
    if s.dir ≠ "" then
      match s.persist C os run files with
      | (files, some e) => (s, files, run.id, some e)
      | (files, none) => (s, files, run.id, none)
    else (s, files, run.id, none)

/-! ## Get, Count and Cleanup -/

def ReceiptStore.get (s : ReceiptStore X) (id : String) : Option (StoredRun X) := s.runs.lookup id

def ReceiptStore.count (s : ReceiptStore X) : Nat := s.runs.entries.length

/-- The instant before which `Cleanup` expires a run. -/
def cutoff (now : Time) (maxAge : Duration) : Time := now - maxAge / second

/-- The ids `Cleanup` removes from the map. -/
def ReceiptStore.expired (s : ReceiptStore X) (cut : Time) : List String :=
  (s.runs.filter fun _ r => decide (r.createdAt < cut)).keys

/-- `Cleanup` under the lock. -/
def ReceiptStore.expire (s : ReceiptStore X) (cut : Time) : ReceiptStore X :=
  { s with runs := s.runs.filter fun _ r => !decide (r.createdAt < cut) }

/-- `_ = os.Remove(s.diskPath(id))`. -/
def ReceiptStore.removeFile {δ : Type} (os : Disk) (s : ReceiptStore X) (id : String)
    (files : Files δ) : Files δ :=
  if os.unremovable (s.diskPath id) then files else files.erase (s.diskPath id)

/-- Remove the runs older than `maxAge` and return how many were removed. -/
def ReceiptStore.cleanup {δ : Type} (os : Disk) (now : Time) (maxAge : Duration) (s : ReceiptStore X)
    (files : Files δ) : ReceiptStore X × Files δ × Nat :=
  let removed := s.expired (cutoff now maxAge)
  let s := s.expire (cutoff now maxAge)
  if s.dir ≠ "" then
    (s, removed.foldl (fun files id => s.removeFile os id files) files, removed.length)
  else (s, files, removed.length)

/-! ## Opening a store -/

/-- The run a file of the directory holds, under its own id; unreadable and malformed files are skipped. -/
def loadFile (C : RunCodec X) (os : Disk) (dir : String) (files : Files C.Data) (name : String) :
    Option (String × StoredRun X) :=
  if os.unreadable (join dir name) then none
  else
    match (files.lookup (join dir name)).bind C.unmarshal with
    | some run => if run.id ≠ "" then some (run.id, run) else none
    | none => none

/-- Load the directory's runs, in the order of their file names. -/
def ReceiptStore.loadFromDisk (C : RunCodec X) (os : Disk) (s : ReceiptStore X)
    (files : Files C.Data) : Except String (ReceiptStore X) :=
  match os.readDir with
  | some e => .error ("playground: read receipt dir: " ++ e)
  | none =>
    let names := (readDir files s.dir).filter fun name => hasSuffix name ".run.json"
    let names := names.mergeSort fun a b => decide (a ≤ b)
    .ok { s with runs := AList.insertAll (loadFile C os s.dir files) s.runs names }

/-- `NewReceiptStore`. -/
def newReceiptStore (C : RunCodec X) (os : Disk) (dir : String) (files : Files C.Data) :
    Except String (ReceiptStore X) :=
  let s : ReceiptStore X := { dir, runs := ∅ }
  if dir = "" then .ok s
  else
    match os.mkdirAll with
    | some e => .error ("playground: create receipt dir: " ++ e)
    | none => s.loadFromDisk C os files

/-- A stored run can be encoded as itself; `none` is a text that decodes to nothing. -/
abbrev sampleCodec (X : Externals) : RunCodec X :=
  { Data := Option (StoredRun X), marshalIndent := fun run => .ok (some run), unmarshal := id,
    truncate := fun _ _ => none, Value := GoText.Bytes, value := some }

/-! ## Ids and file names -/

/-- An id that names a file of the directory, and only there. -/
def PlainId (id : String) : Prop := '/' ∉ id.toList

instance (id : String) : Decidable (PlainId id) := inferInstanceAs (Decidable (¬ _))

/-- Whatever the hash, a derived id is twelve hex digits. -/
theorem deriveID_digits (receiptJSON : Bytes) :
    (deriveID X receiptJSON).toList.length = 12 ∧
      ∀ c ∈ (deriveID X receiptJSON).toList, IsHexDigit c := by
  rw [deriveID, String.toList_ofList]
  constructor
  · rw [List.length_take, length_hexEncode, List.Vector.toList_length]
    decide
  · intro c hc
    exact isHexDigit_of_mem_encode (List.mem_of_mem_take hc)

theorem deriveID_plain (receiptJSON : Bytes) : PlainId (deriveID X receiptJSON) :=
  fun h => ((deriveID_digits receiptJSON).2 '/' h).ne_slash rfl

theorem deriveID_ne_empty (receiptJSON : Bytes) : deriveID X receiptJSON ≠ "" := by
  intro h
  have hlen := (deriveID_digits (X := X) receiptJSON).1
  rw [h] at hlen
  exact absurd hlen (by decide)

theorem isName_of_plain {id : String} (h : PlainId id) : IsName (id ++ ".run.json") := by
  have hlen : (id ++ ".run.json").toList.length = id.toList.length + 9 := by
    rw [String.toList_append, List.length_append]; rfl
  refine ⟨?_, ?_, ?_, ?_⟩
  · intro he; rw [he] at hlen; exact absurd hlen (by simp)
  · intro he; rw [he] at hlen; exact absurd hlen (by simp)
  · intro he; rw [he] at hlen; exact absurd hlen (by simp)
  · rw [String.toList_append, List.mem_append]
    rintro (hc | hc)
    · exact h hc
    · exact absurd hc (by decide)

/-- **A run's file lies directly in the store's directory.** -/
theorem diskPath_of_plain {s : ReceiptStore X} (hd : s.dir ≠ "") {id : String} (h : PlainId id) :
    s.diskPath id = (cleanDir s.dir).child (id ++ ".run.json") :=
  join_of_isName hd (isName_of_plain h)

theorem append_suffix_inj {id id' suffix : String} (h : id ++ suffix = id' ++ suffix) : id = id' := by
  have := congrArg String.toList h
  rw [String.toList_append, String.toList_append] at this
  exact String.toList_inj.mp (List.append_cancel_right this)

/-- **Two runs share a file only if they share an id.** -/
theorem diskPath_inj {s : ReceiptStore X} (hd : s.dir ≠ "") {id id' : String} (h : PlainId id)
    (h' : PlainId id') (heq : s.diskPath id = s.diskPath id') : id = id' := by
  rw [diskPath_of_plain hd h, diskPath_of_plain hd h'] at heq
  exact append_suffix_inj (Path.child_inj heq)

/-! ## What the steps of an operation do to the map -/

/-- A run that `Put` accepts, and what it has become when it reaches the lock. -/
theorem prepare_eq_ok {now : Time} {run : Option (StoredRun X)} {rec : StoredRun X}
    (h : StoredRun.prepare now run = .ok rec) :
    ∃ run₀ receipt receiptJSON, run = some run₀ ∧ run₀.receipt = some receipt ∧
      X.marshalReceipt receipt = .ok receiptJSON ∧
      rec = { run₀ with
        id := if run₀.id = "" then deriveID X receiptJSON else run₀.id
        createdAt := if run₀.createdAt = zeroTime then now else run₀.createdAt } := by
  unfold StoredRun.prepare at h
  split at h
  · exact absurd h (by simp)
  · rename_i run₀
    split at h
    · exact absurd h (by simp)
    · rename_i receipt hr
      split at h
      · exact absurd h (by simp)
      · rename_i receiptJSON hm
        exact ⟨run₀, receipt, receiptJSON, rfl, hr, hm, (Except.ok.inj h).symm⟩

/-- A stored run always has an id. -/
theorem prepare_id_ne_empty {now : Time} {run : Option (StoredRun X)} {rec : StoredRun X}
    (h : StoredRun.prepare now run = .ok rec) : rec.id ≠ "" := by
  obtain ⟨run₀, _, receiptJSON, _, _, _, rfl⟩ := prepare_eq_ok h
  show (if run₀.id = "" then _ else _) ≠ ""
  split
  · exact deriveID_ne_empty _
  · assumption

/-- An id the store derives is plain, and so is one it keeps if the caller's was. -/
theorem prepare_plain {now : Time} {run : StoredRun X} {rec : StoredRun X} (hp : PlainId run.id)
    (h : StoredRun.prepare now (some run) = .ok rec) : PlainId rec.id := by
  obtain ⟨run₀, _, receiptJSON, hrun, _, _, rfl⟩ := prepare_eq_ok h
  cases hrun
  show PlainId (if run.id = "" then _ else _)
  split
  · exact deriveID_plain _
  · exact hp

@[simp] theorem dir_insert (s : ReceiptStore X) (run : StoredRun X) : (s.insert run).dir = s.dir := rfl
@[simp] theorem dir_expire (s : ReceiptStore X) (cut : Time) : (s.expire cut).dir = s.dir := rfl
@[simp] theorem diskPath_insert (s : ReceiptStore X) (run : StoredRun X) (id : String) :
    (s.insert run).diskPath id = s.diskPath id := rfl
theorem get_insert (s : ReceiptStore X) (run : StoredRun X) (id : String) :
    (s.insert run).get id = if id = run.id then some run else s.get id :=
  AList.lookup_insert_eq ..

theorem get_expire (s : ReceiptStore X) (cut : Time) (id : String) :
    (s.expire cut).get id = (s.get id).filter fun r => !decide (r.createdAt < cut) :=
  AList.lookup_filter ..

/-- `Cleanup` keeps exactly the runs that are not older than the cutoff. -/
theorem get_expire_eq_some {s : ReceiptStore X} {cut : Time} {id : String} {r : StoredRun X} :
    (s.expire cut).get id = some r ↔ s.get id = some r ∧ cut ≤ r.createdAt := by
  rw [get_expire, Option.filter_eq_some_iff, Bool.not_eq_true', decide_eq_false_iff_not, not_lt]

/-- The ids `Cleanup` removes are those of the runs older than the cutoff. -/
theorem mem_expired {s : ReceiptStore X} {cut : Time} {id : String} :
    id ∈ s.expired cut ↔ ∃ r, s.get id = some r ∧ r.createdAt < cut := by
  rw [ReceiptStore.expired, ← AList.mem_keys, AList.mem_iff_lookup]
  simp only [AList.lookup_filter, Option.filter_eq_some_iff, decide_eq_true_eq]
  rfl

theorem expired_nodup (s : ReceiptStore X) (cut : Time) : (s.expired cut).Nodup := AList.keys_nodup _

end Api
end InfrixPlayground
