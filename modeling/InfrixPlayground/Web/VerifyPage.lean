import InfrixPlayground.Lib.Machine
import InfrixPlayground.Lib.Calls
import InfrixPlayground.Lib.Json

/-!
# `Web.VerifyPage` — bring your own proof

A dropped or chosen file, a pasted text and the sample all end up in `handle`, each after its own wait, and
every verification mounts its result when it is there. With nothing under way, what is mounted is the result
of the verification that completed last.
-/

namespace InfrixPlayground
namespace Web

open Machine

/-! ## What is shown -/

/-- A child of the element that verdicts are mounted in. -/
inductive Child (V : Type) where
  | loading
  | matrix (result : V)
  | error (message : String)
deriving DecidableEq, Repr

variable {V : Type}

def Child.result : Child V → Option V
  | .matrix v => some v
  | _ => none

/-- The results whose matrices are mounted. -/
def mounted (host : List (Child V)) : List V := host.filterMap Child.result

@[simp] theorem mounted_matrix (v : V) : mounted [.matrix v] = [v] := rfl

@[simp] theorem mounted_error (e : String) : mounted [(.error e : Child V)] = [] := rfl

/-- An error leaves what is mounted above it. -/
@[simp] theorem mounted_append_error (host : List (Child V)) (e : String) :
    mounted (host ++ [.error e]) = mounted host := by
  simp [mounted, Child.result]

/-! ## The page -/

/-- What a submission waits for before its text is there. -/
inductive Door where
  | file
  | sample
deriving DecidableEq, Repr

/-- How `GET /api/sample-bundle` ends. -/
inductive SampleAnswer where
  | text (text : String)
  | refused
  | failed (message : String)

structure VerifyPage (V : Type) where
  calls : Calls Door Json
  out : List (Child V)

/-- What the visitor does, and what settles. -/
inductive VerifyAct where
  | drop (hasFile : Bool)
  | pick (hasFile : Bool)
  | paste (text : String)
  | sample
  /-- The `k`th of the waiting submissions is a file and has been read, or cannot be. -/
  | fileRead (k : Nat) (text : Option String)
  | sampleFetched (k : Nat) (answer : SampleAnswer)
  | verified (k : Nat)

/-- Something is submitted. -/
def VerifyAct.Submits : VerifyAct → Bool
  | .drop _ | .pick _ | .paste _ | .sample => true
  | _ => false

namespace VerifyPage

def start : VerifyPage V := { calls := .empty, out := [] }

def notJSON : String := "That is not valid JSON. Drop or paste a portable proof bundle."

/-- `handle` up to its `await`, for the text of submission `i`. -/
def handle (s : VerifyPage V) (i : Nat) (text : String) : VerifyPage V :=
  match Json.parse text.toList with
  | none => { s with out := s.out ++ [.error notJSON] }
  | some pkg => { calls := s.calls.start i pkg, out := [.loading] }

/-- `handle` from its `await` on. -/
def complete (s : VerifyPage V) : Except String V → VerifyPage V
  | .ok result => { s with out := [.matrix result] }
  | .error e => { s with out := [.error e] }

/-- One step; `verify` is `verifyPortablePackage`, which may throw. -/
def step (verify : Json → Except String V) (s : VerifyPage V) : VerifyAct → Option (VerifyPage V)
  | .drop hasFile | .pick hasFile => some (if hasFile then { s with calls := s.calls.submit .file } else s)
  | .paste text => some ({ s with calls := s.calls.issue }.handle s.calls.issued text)
  | .sample => some { s with calls := s.calls.submit .sample }
  | .fileRead k text =>
    match s.calls.take k with
    | some ((i, .file), calls) =>
      match text with
      | some text => some ({ s with calls }.handle i text)
      -- the rejection of `text()` is nobody's to catch
      | none => some { s with calls }
    | _ => none
  | .sampleFetched k answer =>
    match s.calls.take k with
    | some ((i, .sample), calls) =>
      match answer with
      | .text text => some ({ s with calls }.handle i text)
      | .refused => some { calls, out := s.out ++ [.error "sample bundle unavailable"] }
      | .failed e => some { calls, out := s.out ++ [.error e] }
    | _ => none
  | .verified k =>
    match s.calls.finish k with
    | some ((_, pkg), calls) => some ({ s with calls }.complete (verify pkg))
    | none => none

/-! ## What a step can do -/

variable {verify : Json → Except String V}

/-- Something is submitted; or a submission is done waiting, with a package or without one, or a
    verification completes. -/
inductive Steps (verify : Json → Except String V) (s : VerifyPage V) : Bool → VerifyPage V → Prop where
  | submitted (d : Door) : Steps verify s true { s with calls := s.calls.submit d }
  | ignored : Steps verify s true s
  | noJSON : Steps verify s true { calls := s.calls.issue, out := s.out ++ [.error notJSON] }
  | pasted (pkg : Json) :
      Steps verify s true { calls := s.calls.issue.start s.calls.issued pkg, out := [.loading] }
  | given {k : Nat} {w : Nat × Door} {calls : Calls Door Json} {out : List (Child V)}
      (hc : s.calls.take k = some (w, calls)) (hout : mounted out = mounted s.out) :
      Steps verify s false { calls, out }
  | started {k : Nat} {w : Nat × Door} {calls : Calls Door Json} (hc : s.calls.take k = some (w, calls))
      (pkg : Json) : Steps verify s false { calls := calls.start w.1 pkg, out := [.loading] }
  | verified {k : Nat} {c : Nat × Json} {calls : Calls Door Json} (hc : s.calls.finish k = some (c, calls)) :
      Steps verify s false ({ s with calls }.complete (verify c.2))

/-- What was waited for is handled. -/
theorem Steps.handle {s : VerifyPage V} {k : Nat} {w : Nat × Door} {calls : Calls Door Json}
    (hc : s.calls.take k = some (w, calls)) (text : String) :
    Steps verify s false ({ s with calls }.handle w.1 text) := by
  unfold VerifyPage.handle
  split
  · exact .given hc (mounted_append_error _ _)
  · exact .started hc _

theorem step_cases {s s' : VerifyPage V} {a : VerifyAct} (h : s.step verify a = some s') :
    Steps verify s a.Submits s' := by
  have hfile : ∀ hasFile : Bool,
      Steps verify s true (if hasFile then { s with calls := s.calls.submit .file } else s) := by
    intro hasFile
    split
    · exact .submitted .file
    · exact .ignored
  cases a with
  | drop hasFile => cases h; exact hfile hasFile
  | pick hasFile => cases h; exact hfile hasFile
  | paste text =>
      simp only [step, Option.some.injEq] at h
      subst h
      unfold VerifyPage.handle
      split
      · exact .noJSON
      · exact .pasted _
  | sample => cases h; exact .submitted .sample
  | fileRead k text =>
      simp only [step] at h
      split at h
      · rename_i i calls hc
        cases text with
        | some text => cases h; exact .handle hc text
        | none => cases h; exact .given hc rfl
      · cases h
  | sampleFetched k answer =>
      simp only [step] at h
      split at h
      · rename_i i calls hc
        cases answer with
        | text text => cases h; exact .handle hc text
        | refused => cases h; exact .given hc (mounted_append_error _ _)
        | failed e => cases h; exact .given hc (mounted_append_error _ _)
      · cases h
  | verified k =>
      simp only [step] at h
      split at h
      · rename_i i pkg calls hc
        cases h
        exact .verified hc
      · cases h

@[simp] theorem complete_calls (s : VerifyPage V) (r : Except String V) : (s.complete r).calls = s.calls := by
  cases r <;> rfl

/-! ## The invariant -/

/-- What the last of the completed verifications came to. -/
def lastResult (verify : Json → Except String V) (s : VerifyPage V) : List V :=
  (s.calls.finished.head?.bind fun c => (verify c.2).toOption).toList

/-- **The invariant.** With no verification under way, what is mounted is what the last one came to. -/
structure Stands (verify : Json → Except String V) (s : VerifyPage V) : Prop where
  wf : s.calls.Wf
  shown : s.calls.pending = [] → mounted s.out = s.lastResult verify

theorem Stands.start : (start : VerifyPage V).Stands verify where
  wf := .empty
  shown := fun _ => rfl

theorem Stands.step {s s' : VerifyPage V} {b : Bool} (h : s.Stands verify) (hs : Steps verify s b s') :
    s'.Stands verify := by
  cases hs with
  | submitted d => exact ⟨h.wf.submit d, h.shown⟩
  | ignored => exact h
  | @given k w calls out hc hout =>
      refine ⟨(h.wf.take hc).1, fun hp => ?_⟩
      have hcalls := (Calls.take_cases hc).2
      rw [hcalls] at hp
      rw [hout, h.shown hp, lastResult, lastResult, hcalls]
  | @started k w calls hc pkg =>
      obtain ⟨hwf, hfresh, hlt⟩ := h.wf.take hc
      exact ⟨hwf.start hfresh hlt pkg, fun hp => absurd hp (by simp [Calls.start])⟩
  | noJSON => exact ⟨h.wf.issue.1, fun hp => (mounted_append_error _ _).trans (h.shown hp)⟩
  | pasted pkg =>
      obtain ⟨hwf, hfresh, hlt⟩ := h.wf.issue
      exact ⟨hwf.start hfresh hlt pkg, fun hp => absurd hp (by simp [Calls.start])⟩
  | @verified k c calls hc =>
      have hfinished : calls.finished = c :: s.calls.finished := by rw [(Calls.finish_cases hc).2]
      unfold complete
      split
      · rename_i v hv
        exact ⟨h.wf.finish hc, fun _ => by simp [lastResult, hfinished, hv, Except.toOption]⟩
      · rename_i e he
        exact ⟨h.wf.finish hc, fun _ => by simp [lastResult, hfinished, he, Except.toOption]⟩

/-! ## The verdict of the last package -/

/-- With nothing under way, what is mounted is the result for the package that was submitted last, and no
    result if its verification threw. -/
def ShowsLast (verify : Json → Except String V) (s : VerifyPage V) : Prop :=
  s.calls.Quiet → ∀ n, s.calls.Newest n → mounted s.out = (verify n.2).toOption.toList

/-- With nothing under way, the last verification to complete, if it completed after the one of the package
    submitted last, came to the same. -/
def InOrder (verify : Json → Except String V) (s : VerifyPage V) : Prop :=
  s.calls.Quiet → ∀ n, s.calls.Newest n →
    ∀ c, (s.calls.late n).head? = some c → (verify c.2).toOption = (verify n.2).toOption

theorem Stands.showsLast_iff {s : VerifyPage V} (h : s.Stands verify) :
    s.ShowsLast verify ↔ s.InOrder verify := by
  refine forall_congr' fun hq => forall_congr' fun n => forall_congr' fun hn => ?_
  obtain ⟨rest, hsplit⟩ := h.wf.finished_split (hn.finished hq.2)
  rw [h.shown hq.2, lastResult, hsplit]
  cases hlate : s.calls.late n with
  | nil => simp
  | cons c cs =>
      have hinj : ∀ a b : Option V, a.toList = b.toList ↔ a = b := by
        intro a b
        cases a <;> cases b <;> simp
      simp [hinj]

/-! ## One at a time -/

theorem serial_step {s s' : VerifyPage V} {b : Bool} (h : s.calls.Serial) (hs : Steps verify s b s')
    (hb : b = true → s.calls.Quiet) : s'.calls.Serial := by
  cases hs with
  | submitted d => exact h.submit (hb rfl) d
  | ignored => exact h
  | noJSON => exact h.issue.1
  | pasted pkg =>
      obtain ⟨_, hfresh, hlt⟩ := h.wf.issue
      exact h.issue.1.start (hb rfl) hfresh hlt h.issue.2 pkg
  | given hc hout => exact (h.take hc).1
  | started hc pkg =>
      obtain ⟨_, hfresh, hlt⟩ := h.wf.take hc
      obtain ⟨hserial, hquiet, hnewer⟩ := h.take hc
      exact hserial.start hquiet hfresh hlt hnewer pkg
  | verified hc => rw [complete_calls]; exact h.finish hc

/-- **One at a time, the page is right**: nothing submitted while anything is under way. -/
theorem showsLast_of_serial {as : List VerifyAct} {s : VerifyPage V}
    (hmeets : Meets (step verify) (fun s a => a.Submits = true → s.calls.Quiet) start as)
    (hrun : exec (step verify) start as = some s) : s.ShowsLast verify := by
  have h : s.Stands verify ∧ s.calls.Serial :=
    exec_guarded (P := fun s => s.Stands verify ∧ s.calls.Serial)
      (fun _ _ _ h hok hs => ⟨h.1.step (step_cases hs), serial_step h.2 (step_cases hs) hok⟩) as
      ⟨.start, .empty⟩ hmeets hrun
  refine h.1.showsLast_iff.mpr fun hq n hn c hc => ?_
  rw [h.2.late_eq_nil hn (hn.finished hq.2)] at hc
  cases hc

/-- Two texts pasted one after the other, the first of which is through first. -/
theorem inTurn (verify : Json → Except String V) {text text' : String} {pkg pkg' : Json}
    (h : Json.parse text.toList = some pkg) (h' : Json.parse text'.toList = some pkg') {v v' : V}
    (hv : verify pkg = .ok v) (hv' : verify pkg' = .ok v') :
    exec (step verify) start [.paste text, .paste text', .verified 0, .verified 0] = some
      { calls :=
          { issued := 2
            waiting := []
            pending := []
            finished := [(1, pkg'), (0, pkg)]
            recent := [(1, pkg'), (0, pkg)] }
        out := [.matrix v'] } := by
  simp [exec, step, handle, start, h, h', Calls.issue, Calls.start,
    Calls.finish, Calls.empty, complete, hv, hv']

end VerifyPage

end Web
end InfrixPlayground
