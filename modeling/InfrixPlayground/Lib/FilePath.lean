import Mathlib.Data.List.AList
import InfrixPlayground.Lib.GoText

/-!
# `Lib.FilePath` — lexical paths and a file system of regular files

`join dir name` is `filepath.Join` on Unix: the elements are put together with a slash and the result is
cleaned lexically (`.` and empty parts dropped, `..` resolved against what precedes it). A file system
maps cleaned paths to contents; a directory is listed by the names directly below it.
-/

namespace FilePath

open GoText

/-- A cleaned path: whether it starts at the root, and its parts. -/
structure Path where
  rooted : Bool
  parts : List String
deriving DecidableEq, Repr

/-- The parts of a slash-separated text. -/
def split (s : String) : List String := (s.toList.splitOn '/').map String.ofList

/-- Add one part to a cleaned stack of parts (innermost first). -/
def pushPart (rooted : Bool) (stack : List String) (part : String) : List String :=
  if part = "" ∨ part = "." then stack
  else if part = ".." then
    match stack with
    | [] => if rooted then [] else [".."]
    | top :: rest => if top = ".." then ".." :: stack else rest
  else part :: stack

/-- `filepath.Clean`, on parts. -/
def clean (rooted : Bool) (parts : List String) : List String :=
  (parts.foldl (pushPart rooted) []).reverse

/-- Whether a text starts with a slash. -/
def isRooted (s : String) : Bool := s.toList.head? == some '/'

/-- `filepath.Join(dir, name)`; empty elements are ignored. -/
def join (dir name : String) : Path :=
  let rooted := if dir = "" then isRooted name else isRooted dir
  ⟨rooted, clean rooted (split dir ++ split name)⟩

/-- `filepath.Clean(dir)` for a nonempty `dir`. -/
def cleanDir (dir : String) : Path := ⟨isRooted dir, clean (isRooted dir) (split dir)⟩

/-- The file called `name` directly below a directory. -/
def Path.child (d : Path) (name : String) : Path := ⟨d.rooted, d.parts ++ [name]⟩

theorem Path.child_inj {d : Path} {n n' : String} (h : d.child n = d.child n') : n = n' := by
  have := congrArg Path.parts h
  simpa [Path.child] using this

/-- A file name: not one of the parts that `Clean` resolves, and without a slash. -/
structure IsName (name : String) : Prop where
  ne_empty : name ≠ ""
  ne_dot : name ≠ "."
  ne_dotdot : name ≠ ".."
  no_slash : '/' ∉ name.toList

theorem split_of_name {name : String} (h : '/' ∉ name.toList) : split name = [name] := by
  have hs : name.toList.splitOn '/' = [name.toList] :=
    List.splitOnP_eq_singleton fun c hc => by
      rw [beq_eq_false_iff_ne]; rintro rfl; exact h hc
  rw [split, hs, List.map_singleton, String.ofList_toList]

theorem pushPart_of_isName {name : String} (h : IsName name) (rooted : Bool) (stack : List String) :
    pushPart rooted stack name = name :: stack := by
  unfold pushPart
  rw [if_neg (not_or.mpr ⟨h.ne_empty, h.ne_dot⟩), if_neg h.ne_dotdot]

/-- **Cleaning leaves names as they are.** -/
theorem clean_of_names (rooted : Bool) {names : List String} (h : ∀ name ∈ names, IsName name) :
    clean rooted names = names := by
  have hfold : ∀ stack, names.foldl (pushPart rooted) stack = names.reverse ++ stack := by
    induction names with
    | nil => exact fun _ => rfl
    | cons name names ih =>
        intro stack
        rw [List.foldl_cons, pushPart_of_isName (h name List.mem_cons_self),
          ih (fun n hn => h n (List.mem_cons_of_mem _ hn)), List.reverse_cons, List.append_assoc]
        rfl
  rw [clean, hfold, List.append_nil, List.reverse_reverse]

/-- **Joining a plain name stays inside the directory.** -/
theorem join_of_isName {dir name : String} (hd : dir ≠ "") (h : IsName name) :
    join dir name = (cleanDir dir).child name := by
  simp only [join, if_neg hd, cleanDir, Path.child, clean, split_of_name h.no_slash,
    List.foldl_append, List.foldl_cons, List.foldl_nil, pushPart_of_isName h, List.reverse_cons]

theorem clean_concat_name (rooted : Bool) (parts : List String) {name : String} (h : IsName name) :
    clean rooted (parts ++ [name]) = clean rooted parts ++ [name] := by
  simp only [clean, List.foldl_append, List.foldl_cons, List.foldl_nil, pushPart_of_isName h, List.reverse_cons]

/-- What follows the last slash takes a suffix without one. -/
theorem split_append {s suffix : String} (h : '/' ∉ suffix.toList) :
    ∃ parts part, '/' ∉ part.toList ∧ split (s ++ suffix) = parts ++ [part ++ suffix] := by
  by_cases hs : '/' ∈ s.toList
  · obtain ⟨tail, init, hrev, htail⟩ := List.eq_append_cons_of_mem (List.mem_reverse.mpr hs)
    have hlist : s.toList = init.reverse ++ '/' :: tail.reverse := by
      rw [← List.reverse_reverse s.toList, hrev]
      simp
    refine ⟨(init.reverse.splitOn '/').map String.ofList, String.ofList tail.reverse, by simpa using htail, ?_⟩
    have hnot : '/' ∉ tail.reverse ++ suffix.toList := by simp [htail, h]
    rw [split, String.toList_append, hlist, List.append_assoc, List.cons_append, List.splitOn_append_cons_self,
      List.splitOn_eq_singleton hnot, List.map_append, List.map_singleton, String.ofList_append, String.ofList_toList]
  · exact ⟨[], s, hs, split_of_name (by simp [hs, h])⟩

/-- The last part of a joined path, where the name ends in a suffix that makes every part a name. -/
theorem getLast_join (dir s : String) {suffix : String} (h : '/' ∉ suffix.toList)
    (hname : ∀ part : String, '/' ∉ part.toList → IsName (part ++ suffix)) :
    ∃ part, '/' ∉ part.toList ∧ (join dir (s ++ suffix)).parts.getLast? = some (part ++ suffix) := by
  obtain ⟨parts, part, hpart, hsplit⟩ := split_append (s := s) h
  refine ⟨part, hpart, ?_⟩
  simp only [join, hsplit, ← List.append_assoc, clean_concat_name _ _ (hname part hpart), List.getLast?_concat]

/-! ## A file system -/

/-- The regular files with contents in `δ`, by their cleaned paths. -/
abbrev Files (δ : Type*) := AList fun _ : Path => δ

variable {δ : Type*}

/-- The name of `p` if it lies directly below `d`. -/
def childName (d p : Path) : Option String :=
  match p.parts.getLast? with
  | some name => if p = d.child name then some name else none
  | none => none

theorem childName_eq_some {d p : Path} {name : String} :
    childName d p = some name ↔ p = d.child name := by
  unfold childName
  constructor
  · intro h
    split at h
    · split at h
      · rename_i hp; rw [Option.some.injEq] at h; rw [← h]; exact hp
      · exact absurd h (by simp)
    · exact absurd h (by simp)
  · rintro rfl
    simp [Path.child]

/-- `os.ReadDir(dir)`: the names of the regular files directly below `dir`. -/
def readDir (fs : Files δ) (dir : String) : List String := fs.keys.filterMap (childName (cleanDir dir))

theorem mem_readDir {fs : Files δ} {dir name : String} :
    name ∈ readDir fs dir ↔ (cleanDir dir).child name ∈ fs := by
  simp only [readDir, List.mem_filterMap, childName_eq_some, AList.mem_keys]
  constructor
  · rintro ⟨p, hp, rfl⟩; exact hp
  · intro h; exact ⟨_, h, rfl⟩

/-- Every file has a name that a system gives files, so one without a slash. -/
def Named (fs : Files δ) : Prop := ∀ (d : Path) (name : String), d.child name ∈ fs → IsName name

theorem named_empty : Named (∅ : Files δ) := fun _ _ h => absurd h (AList.notMem_empty _)

theorem Path.child_name {d d' : Path} {n n' : String} (h : d.child n = d'.child n') : n = n' := by
  have hlast := congrArg (fun p => p.parts.getLast?) h
  simpa [Path.child] using hlast

theorem Named.insert {fs : Files δ} (h : Named fs) {d : Path} {name : String} (hname : IsName name)
    (data : δ) : Named (AList.insert (d.child name) data fs) := by
  intro d' name' hmem
  rcases (AList.mem_insert fs).mp hmem with heq | hold
  · rw [Path.child_name heq]; exact hname
  · exact h d' name' hold

theorem Named.mono {fs fs' : Files δ} (h : Named fs) (hsub : ∀ p, p ∈ fs' → p ∈ fs) : Named fs' :=
  fun d name hmem => h d name (hsub _ hmem)

/-- A file that is listed is found by joining its name to the directory's. -/
theorem Named.join_of_mem {fs : Files δ} (h : Named fs) {dir name : String} (hd : dir ≠ "")
    (hmem : (cleanDir dir).child name ∈ fs) : join dir name = (cleanDir dir).child name :=
  join_of_isName hd (h _ _ hmem)

/-- The files of an operating system. -/
structure FileSystem (δ : Type*) where
  files : Files δ
  named : Named files

end FilePath
