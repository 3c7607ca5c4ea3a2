import InfrixPlayground.Web.VerifyPage
import InfrixPlayground.Web.Tamper

/-!
# `Web.TamperLab` — the verdicts of the Tamper Lab

The lab verifies the clean proof when it opens and on every reset, and a forged one per forgery. A forgery
disables all buttons until it is through, so that nothing is submitted after it; what was submitted before
it may still come after it. `last_shown_iff`: that is when the lab, and the verify page, show a verdict that
is not the one of the package submitted last.
-/

namespace InfrixPlayground
namespace Web

open Machine

/-! ## The lab -/

/-- What a package is submitted by. -/
inductive Source where
  /-- The verification `renderLab` ends with. -/
  | initial
  | reset
  | forgery (f : Forgery)

def Source.isForgery : Source → Bool
  | .forgery _ => true
  | _ => false

structure Submission where
  source : Source
  pkg : Json

/-- What the lab is given: the hasher, `verifyPortablePackage` (which may throw), what it says of a result,
    and the sample. -/
structure Bench (V : Type) where
  canon : Canon
  verify : Json → Except String V
  passed : V → Bool
  clean : Json

structure Lab (V : Type) where
  calls : Calls Forgery Submission
  forgeriesDisabled : Bool
  resetDisabled : Bool
  attempts : Nat
  caught : Nat
  score : String
  verdictHost : List (Child V)

/-- What the visitor does, and what settles. -/
inductive LabAct where
  /-- A click on the `k`th forgery button. -/
  | forge (k : Nat)
  | reset
  | forged (k : Nat)
  | verified (k : Nat)

/-- Something is submitted. -/
def LabAct.Submits : LabAct → Bool
  | .forge _ | .reset => true
  | _ => false

variable {V : Type}

def pickATamper : String := "Pick a tamper below to attack the proof."

def cleanProofRestored : String := "Clean proof restored. Pick a tamper to attack it."

/-- The score text after a forgery. -/
def forgeryScore (f : Forgery) (passed : Bool) (caught attempts : Nat) : String :=
  if passed then
    "The proof was EVADED (" ++ toString caught ++ " / " ++ toString attempts ++
      " caught). That should not happen — please report it."
  else "Caught " ++ toString caught ++ " / " ++ toString attempts ++ ". " ++ f.blurb

namespace Lab

/-- `setBusy(btnRow, on); reset.disabled = on`. -/
def setBusy (s : Lab V) (on : Bool) : Lab V := { s with forgeriesDisabled := on, resetDisabled := on }

/-- `renderLab` up to its last `await`, the sample loaded. -/
def start (b : Bench V) : Lab V :=
  { calls := Calls.empty.issue.start 0 { source := .initial, pkg := b.clean }
    forgeriesDisabled := false
    resetDisabled := false
    attempts := 0
    caught := 0
    score := pickATamper
    verdictHost := [.loading] }

/-- What the handler of a submission does when its verification has settled. Mounting the result and writing
    the score are two microtasks with nothing of the visitor's in between. -/
def complete (b : Bench V) (s : Lab V) : Source → Except String V → Lab V
  -- a rejection is nobody's to catch
  | .initial, .error _ | .reset, .error _ => s
  | .initial, .ok result => { s with verdictHost := [.matrix result] }
  | .reset, .ok result => { s with verdictHost := [.matrix result], score := cleanProofRestored }
  | .forgery f, .ok result =>
    let attempts := s.attempts + 1
    let caught := if b.passed result then s.caught else s.caught + 1
    { s with
      verdictHost := [.matrix result]
      attempts
      caught
      score := forgeryScore f (b.passed result) caught attempts : Lab V }.setBusy false
  | .forgery _, .error e => { s with verdictHost := s.verdictHost ++ [.error e] : Lab V }.setBusy false

/-- One step; a disabled button takes no click. -/
def step (b : Bench V) (s : Lab V) : LabAct → Option (Lab V)
  | .forge k =>
    if s.forgeriesDisabled then none
    else FORGERIES[k]?.map fun f => { s with calls := s.calls.submit f : Lab V }.setBusy true
  | .reset =>
    if s.resetDisabled then none
    else some { s with
      calls := s.calls.issue.start s.calls.issued { source := .reset, pkg := b.clean }
      verdictHost := [.loading] }
  | .forged k =>
    match s.calls.take k with
    | some ((i, f), calls) =>
      match applyForgery b.clean f.id (some (makeReseal b.canon)) with
      | .ok (pkg, _) => some { s with
          calls := calls.start i { source := .forgery f, pkg }
          verdictHost := [.loading] }
      | .error e => some ({ s with calls, verdictHost := s.verdictHost ++ [.error e] : Lab V }.setBusy false)
    | none => none
  | .verified k =>
    match s.calls.finish k with
    | some ((_, sub), calls) => some ({ s with calls }.complete b sub.source (b.verify sub.pkg))
    | none => none

/-! ## What a step can do -/

variable {b : Bench V}

inductive Steps (b : Bench V) (s : Lab V) : Bool → Lab V → Prop where
  | forge (f : Forgery) (henabled : s.forgeriesDisabled = false) :
      Steps b s true ({ s with calls := s.calls.submit f : Lab V }.setBusy true)
  | reset (henabled : s.resetDisabled = false) :
      Steps b s true { s with
        calls := s.calls.issue.start s.calls.issued { source := .reset, pkg := b.clean }
        verdictHost := [.loading] }
  | failed {k : Nat} {w : Nat × Forgery} {calls : Calls Forgery Submission}
      (hc : s.calls.take k = some (w, calls)) (e : String) :
      Steps b s false ({ s with calls, verdictHost := s.verdictHost ++ [.error e] : Lab V }.setBusy false)
  | forged {k : Nat} {w : Nat × Forgery} {calls : Calls Forgery Submission}
      (hc : s.calls.take k = some (w, calls)) (pkg : Json) :
      Steps b s false { s with
        calls := calls.start w.1 { source := .forgery w.2, pkg }
        verdictHost := [.loading] }
  | verified {k : Nat} {c : Nat × Submission} {calls : Calls Forgery Submission}
      (hc : s.calls.finish k = some (c, calls)) :
      Steps b s false ({ s with calls }.complete b c.2.source (b.verify c.2.pkg))

theorem step_cases {s s' : Lab V} {a : LabAct} (h : s.step b a = some s') : Steps b s a.Submits s' := by
  cases a with
  | forge k =>
      simp only [step] at h
      split at h
      · cases h
      · rename_i hen
        obtain ⟨f, _, rfl⟩ := Option.map_eq_some_iff.mp h
        exact .forge f (Bool.not_eq_true _ ▸ hen)
  | reset =>
      simp only [step] at h
      split at h
      · cases h
      · rename_i hen
        cases h
        exact .reset (Bool.not_eq_true _ ▸ hen)
  | forged k =>
      simp only [step] at h
      split at h
      · rename_i i f calls hc
        split at h
        · cases h; exact .forged hc _
        · cases h; exact .failed hc _
      · cases h
  | verified k =>
      simp only [step] at h
      split at h
      · rename_i i sub calls hc
        cases h
        exact .verified hc
      · cases h

/-! ## Nothing is submitted after a forgery until it is through -/

/-- A verification of the clean proof. -/
def IsClean (b : Bench V) (c : Nat × Submission) : Prop :=
  c.2.source.isForgery = false ∧ c.2.pkg = b.clean

/-- A forgery is under way exactly while the buttons are disabled, and is the newest submission then. -/
structure InTurn (b : Bench V) (c : Calls Forgery Submission) (disabled : Bool) : Prop where
  wf : c.Wf
  busy : c.waiting.length + c.pending.countP (fun m => m.2.source.isForgery) = if disabled then 1 else 0
  newer : ∀ w ∈ c.waiting, ∀ m ∈ c.started, m.1 < w.1
  recent : c.recent <+: c.finished
  last : ∀ n, c.Newest n → n ∈ c.since
  newest : ∀ m ∈ c.since, m.2.source.isForgery = true → c.Newest m
  clean : ∀ m ∈ c.started, m.2.source.isForgery = false → m.2.pkg = b.clean
  initial : ∀ n, c.Newest n → n.2.source = .initial → ∀ m ∈ c.started, m.2.source = .initial

namespace InTurn

variable {c c' : Calls Forgery Submission} {disabled : Bool}

/-- Enabled buttons mean that no forgery is under way. -/
theorem idle (h : InTurn b c false) :
    c.waiting = [] ∧ ∀ m ∈ c.pending, m.2.source.isForgery = false := by
  have hbusy := h.busy
  simp only [Bool.false_eq_true, if_false, Nat.add_eq_zero_iff, List.length_eq_zero_iff,
    List.countP_eq_zero] at hbusy
  exact ⟨hbusy.1, fun m hm => Bool.not_eq_true _ ▸ hbusy.2 m hm⟩

/-- A forgery that waits is the only one, and the buttons are disabled. -/
theorem take (h : InTurn b c disabled) {k : Nat} {w : Nat × Forgery} (hc : c.take k = some (w, c')) :
    c'.waiting = [] ∧ (∀ m ∈ c'.pending, m.2.source.isForgery = false) ∧ ∀ m ∈ c'.started, m.1 < w.1 := by
  obtain ⟨hperm, hc'⟩ := Calls.take_cases hc
  have hbusy := h.busy
  rw [hperm.length_eq, List.length_cons] at hbusy
  have hle : (if disabled then 1 else 0) ≤ 1 := by split <;> omega
  have hpending : c.pending.countP (fun m => m.2.source.isForgery) = 0 := by omega
  have hnewer := h.newer w (hperm.mem_iff.mpr List.mem_cons_self)
  have hwaiting : c'.waiting = [] := List.length_eq_zero_iff.mp (by omega)
  rw [hc']
  exact ⟨hwaiting, fun m hm => Bool.not_eq_true _ ▸ List.countP_eq_zero.mp hpending m hm, hnewer⟩

/-- What has started does not change when a submission begins or ceases to wait. -/
theorem of_waiting {disabled' : Bool} (h : InTurn b c disabled) (hwf : c'.Wf)
    (hp : c'.pending = c.pending) (hf : c'.finished = c.finished) (hr : c'.recent = c.recent)
    (hbusy : c'.waiting.length + c.pending.countP (fun m => m.2.source.isForgery)
      = if disabled' then 1 else 0)
    (hnewer : ∀ w ∈ c'.waiting, ∀ m ∈ c.started, m.1 < w.1) : InTurn b c' disabled' := by
  have hstarted : c'.started = c.started := by rw [Calls.started, Calls.started, hp, hf]
  have hnewest : ∀ n, c'.Newest n ↔ c.Newest n := fun n => Calls.newest_congr hstarted
  have hsince : c'.since = c.since := by rw [Calls.since, Calls.since, hp, hr]
  refine ⟨hwf, hp.symm ▸ hbusy, hstarted.symm ▸ hnewer, ?_, ?_, ?_, hstarted.symm ▸ h.clean, ?_⟩
  · rw [hr, hf]
    exact h.recent
  · intro n hn
    rw [hsince]
    exact h.last n ((hnewest n).mp hn)
  · intro m hm hfm
    exact (hnewest m).mpr (h.newest m (hsince ▸ hm) hfm)
  · intro n hn hsource
    rw [hstarted]
    exact h.initial n ((hnewest n).mp hn) hsource

theorem forge (h : InTurn b c false) (f : Forgery) : InTurn b (c.submit f) true := by
  obtain ⟨hwaiting, hno⟩ := h.idle
  refine h.of_waiting (h.wf.submit f) rfl rfl rfl ?_ ?_
  · have hcount : c.pending.countP (fun m => m.2.source.isForgery) = 0 :=
      List.countP_eq_zero.mpr fun m hm => by simp [hno m hm]
    simp [Calls.submit, hwaiting, hcount]
  · intro w hw m hm
    simp only [Calls.submit, hwaiting, List.nil_append, List.mem_singleton] at hw
    exact hw ▸ h.wf.lt_issued_of_started hm

theorem failed (h : InTurn b c disabled) {k : Nat} {w : Nat × Forgery} (hc : c.take k = some (w, c')) :
    InTurn b c' false := by
  obtain ⟨hwaiting, hno, _⟩ := h.take hc
  have hc' := (Calls.take_cases hc).2
  have hpending : c'.pending = c.pending := by rw [hc']
  refine h.of_waiting (h.wf.take hc).1 hpending (by rw [hc']) (by rw [hc']) ?_ (by simp [hwaiting])
  have hcount : c.pending.countP (fun m => m.2.source.isForgery) = 0 :=
    List.countP_eq_zero.mpr fun m hm => by simp [hno m (hpending ▸ hm)]
  simp [hwaiting, hcount]

/-- A verification starts with no forgery under way; it is the newest. -/
theorem start (hwf : c.Wf) (hwaiting : c.waiting = [])
    (hno : ∀ m ∈ c.pending, m.2.source.isForgery = false)
    (hclean : ∀ m ∈ c.started, m.2.source.isForgery = false → m.2.pkg = b.clean) {i : Nat}
    (hfresh : i ∉ c.numbers) (hlt : i < c.issued) (hnewer : ∀ m ∈ c.started, m.1 < i) {g : Submission}
    (hg : g.source ≠ .initial) (hpkg : g.source.isForgery = false → g.pkg = b.clean) :
    InTurn b (c.start i g) g.source.isForgery := by
  have hcount : c.pending.countP (fun m => m.2.source.isForgery) = 0 :=
    List.countP_eq_zero.mpr fun m hm => by simp [hno m hm]
  have hsince : (c.start i g).since = c.pending ++ [(i, g)] := List.append_nil _
  refine ⟨hwf.start hfresh hlt g, ?_, ?_, List.nil_prefix, ?_, ?_, ?_, ?_⟩
  · simp [Calls.start, hwaiting, hcount]
  · intro w hw
    simp [Calls.start, hwaiting] at hw
  · intro n hn
    cases (Calls.newest_start hnewer).mp hn
    simp [hsince]
  · intro m hm hf
    rw [hsince, List.mem_append, List.mem_singleton] at hm
    rcases hm with hm | hm
    · exact absurd (hno m hm) (by simp [hf])
    · exact (Calls.newest_start hnewer).mpr hm
  · intro m hm hf
    rcases Calls.mem_started_start.mp hm with rfl | hm
    · exact hpkg hf
    · exact hclean m hm hf
  · intro n hn hsource
    cases (Calls.newest_start hnewer).mp hn
    exact absurd hsource hg

theorem reset (h : InTurn b c false) :
    InTurn b (c.issue.start c.issued { source := .reset, pkg := b.clean }) false := by
  obtain ⟨hwf, hfresh, hlt⟩ := h.wf.issue
  exact start hwf h.idle.1 h.idle.2 h.clean hfresh hlt (fun _ hm => h.wf.lt_issued_of_started hm)
    (by simp) fun _ => rfl

theorem forged (h : InTurn b c disabled) {k : Nat} {w : Nat × Forgery} (hc : c.take k = some (w, c'))
    (pkg : Json) : InTurn b (c'.start w.1 { source := .forgery w.2, pkg }) true := by
  obtain ⟨hwf, hfresh, hlt⟩ := h.wf.take hc
  obtain ⟨hwaiting, hno, hnewer⟩ := h.take hc
  have hstarted : c'.started = c.started := by rw [(Calls.take_cases hc).2]; rfl
  exact start hwf hwaiting hno (hstarted.symm ▸ h.clean) hfresh hlt hnewer (by simp)
    fun hf => absurd hf (by simp [Source.isForgery])

/-- A forgery that completes is the newest, and enables the buttons again. -/
theorem finish (h : InTurn b c disabled) {k : Nat} {g : Nat × Submission}
    (hc : c.finish k = some (g, c')) :
    InTurn b c' (if g.2.source.isForgery then false else disabled) := by
  obtain ⟨hperm, hc'⟩ := Calls.finish_cases hc
  have hstarted := Calls.started_finish hc
  have hsince := Calls.since_finish hc
  have hwaiting : c'.waiting = c.waiting := by rw [hc']
  refine ⟨h.wf.finish hc, ?_, ?_, ?_, ?_, ?_, ?_, ?_⟩
  · have hbusy := h.busy
    rw [hperm.countP_eq, List.countP_cons] at hbusy
    rw [hwaiting]
    cases hg : g.2.source.isForgery with
    | false => simpa [hg] using hbusy
    | true =>
        simp only [hg, if_true, Bool.false_eq_true, if_false] at hbusy ⊢
        split at hbusy <;> omega
  · intro w hw m hm
    exact h.newer w (hwaiting ▸ hw) m (hstarted.mem_iff.mpr hm)
  · rw [hc']
    exact List.cons_prefix_cons.mpr ⟨rfl, h.recent⟩
  · intro n hn
    exact hsince.mem_iff.mp (h.last n ((Calls.newest_finish hc).mp hn))
  · intro m hm hf
    exact (Calls.newest_finish hc).mpr (h.newest m (hsince.mem_iff.mpr hm) hf)
  · intro m hm hf
    exact h.clean m (hstarted.mem_iff.mpr hm) hf
  · intro n hn hsource m hm
    exact h.initial n ((Calls.newest_finish hc).mp hn) hsource m (hstarted.mem_iff.mpr hm)

/-- With nothing under way, the newest has completed since it started. -/
theorem mem_recent (h : InTurn b c disabled) (hq : c.Quiet) {n : Nat × Submission} (hn : c.Newest n) :
    n ∈ c.recent := by
  have hsince := h.last n hn
  rwa [Calls.since, hq.2, List.nil_append] at hsince

/-- What completed since the newest started is clean, but for itself. -/
theorem recent_clean (h : InTurn b c disabled) {m n : Nat × Submission} (hn : c.Newest n)
    (hm : m ∈ c.recent) (hne : m ≠ n) : IsClean b m := by
  have hf : m.2.source.isForgery = false := by
    by_contra hf
    have hm' := h.newest m (List.mem_append_right _ hm) (Bool.not_eq_false _ ▸ hf)
    exact hne (hm'.unique h.wf hn)
  exact ⟨hf, h.clean m (List.mem_append_right _ (h.recent.mem hm)) hf⟩

end InTurn

/-! ## What is shown -/

/-- The forgeries that were verified, and those of them whose verdict was bad. -/
def attemptsOf (b : Bench V) (cs : List (Nat × Submission)) : Nat :=
  cs.countP fun c => c.2.source.isForgery && (b.verify c.2.pkg).toOption.isSome

def caughtOf (b : Bench V) (cs : List (Nat × Submission)) : Nat :=
  cs.countP fun c => c.2.source.isForgery && (b.verify c.2.pkg).toOption.any fun v => !b.passed v

/-- What the score says of a submission with this result. -/
def describe (b : Bench V) (v : V) (caught attempts : Nat) : Source → String
  | .initial => pickATamper
  | .reset => cleanProofRestored
  | .forgery f => forgeryScore f (b.passed v) caught attempts

/-- The score after these submissions have completed, the latest first. -/
def scoreAfter (b : Bench V) : List (Nat × Submission) → String
  | [] => pickATamper
  | c :: cs =>
    match c.2.source, b.verify c.2.pkg with
    | .initial, _ | _, .error _ => scoreAfter b cs
    | .reset, .ok _ => cleanProofRestored
    | .forgery f, .ok v => forgeryScore f (b.passed v) (caughtOf b (c :: cs)) (attemptsOf b (c :: cs))

/-- The last result that a verification came to. -/
def resultAfter (b : Bench V) (cs : List (Nat × Submission)) : List V :=
  (cs.findSome? fun c => (b.verify c.2.pkg).toOption).toList

/-- **The invariant.** Submissions take their turns, the score is that of the submissions that have
    completed, and the last result since a verification started is mounted. -/
structure Stands (b : Bench V) (s : Lab V) : Prop where
  inTurn : InTurn b s.calls s.forgeriesDisabled
  disabled : s.resetDisabled = s.forgeriesDisabled
  attempts : s.attempts = attemptsOf b s.calls.finished
  caught : s.caught = caughtOf b s.calls.finished
  score : s.score = scoreAfter b s.calls.finished
  shown : mounted s.verdictHost = resultAfter b s.calls.recent

theorem Stands.start (b : Bench V) : (start b).Stands b where
  inTurn := by
    refine ⟨(Calls.Wf.empty.issue.1).start (by simp [Calls.numbers, Calls.started, Calls.issue, Calls.empty])
      (by simp [Calls.issue]) _, rfl, ?_, List.nil_prefix, fun n hn => hn.mem, ?_, ?_, ?_⟩
    · exact fun w hw => absurd hw List.not_mem_nil
    · intro m hm hf
      cases List.mem_singleton.mp hm
      exact absurd hf Bool.false_ne_true
    · intro m hm _
      cases List.mem_singleton.mp hm
      rfl
    · intro n _ _ m hm
      cases List.mem_singleton.mp hm
      rfl
  disabled := rfl
  attempts := rfl
  caught := rfl
  score := rfl
  shown := rfl

@[simp] theorem complete_calls (b : Bench V) (s : Lab V) (source : Source) (r : Except String V) :
    (s.complete b source r).calls = s.calls := by
  cases source <;> cases r <;> rfl

theorem complete_attempts (b : Bench V) (s : Lab V) (source : Source) (r : Except String V) :
    (s.complete b source r).attempts =
      s.attempts + if source.isForgery && r.toOption.isSome then 1 else 0 := by
  cases source <;> cases r <;> rfl

theorem complete_caught (b : Bench V) (s : Lab V) (source : Source) (r : Except String V) :
    (s.complete b source r).caught =
      s.caught + if source.isForgery && r.toOption.any (fun v => !b.passed v) then 1 else 0 := by
  cases source with
  | initial => cases r <;> rfl
  | reset => cases r <;> rfl
  | forgery f =>
      cases r with
      | error e => rfl
      | ok v => cases hp : b.passed v <;> simp [complete, setBusy, Source.isForgery, Except.toOption, hp]

/-- A forgery that is through enables the buttons. -/
theorem complete_disabled (b : Bench V) (s : Lab V) (source : Source) (r : Except String V) :
    (s.complete b source r).forgeriesDisabled = (if source.isForgery then false else s.forgeriesDisabled) ∧
    (s.complete b source r).resetDisabled = if source.isForgery then false else s.resetDisabled := by
  cases source <;> cases r <;> exact ⟨rfl, rfl⟩

theorem mounted_complete_ok (b : Bench V) (s : Lab V) (source : Source) (v : V) :
    mounted (s.complete b source (.ok v)).verdictHost = [v] := by
  cases source <;> rfl

theorem mounted_complete_error (b : Bench V) (s : Lab V) (source : Source) (e : String) :
    mounted (s.complete b source (.error e)).verdictHost = mounted s.verdictHost := by
  cases source with
  | initial => rfl
  | reset => rfl
  | forgery f => exact mounted_append_error _ _

theorem Stands.verified {s : Lab V} (h : s.Stands b) {k : Nat} {c : Nat × Submission}
    {calls : Calls Forgery Submission} (hc : s.calls.finish k = some (c, calls)) :
    ({ s with calls }.complete b c.2.source (b.verify c.2.pkg)).Stands b := by
  have hfinished : calls.finished = c :: s.calls.finished := by rw [(Calls.finish_cases hc).2]
  have hattempts : ({ s with calls }.complete b c.2.source (b.verify c.2.pkg)).attempts
      = attemptsOf b calls.finished := by
    rw [complete_attempts, h.attempts, hfinished, attemptsOf, attemptsOf, List.countP_cons]
  have hcaught : ({ s with calls }.complete b c.2.source (b.verify c.2.pkg)).caught
      = caughtOf b calls.finished := by
    rw [complete_caught, h.caught, hfinished, caughtOf, caughtOf, List.countP_cons]
  obtain ⟨hforgeries, hreset⟩ := complete_disabled b { s with calls } c.2.source (b.verify c.2.pkg)
  refine ⟨?_, ?_, ?_, ?_, ?_, ?_⟩
  · rw [complete_calls, hforgeries]; exact h.inTurn.finish hc
  · rw [hforgeries, hreset, h.disabled]
  · rw [complete_calls]; exact hattempts
  · rw [complete_calls]; exact hcaught
  · rw [complete_calls]
    obtain ⟨i, source, pkg⟩ := c
    cases source with
    | initial => cases hr : b.verify pkg <;> simp [complete, hfinished, scoreAfter, h.score]
    | reset => cases hr : b.verify pkg <;> simp [complete, hfinished, scoreAfter, hr, h.score]
    | forgery f =>
        cases hr : b.verify pkg with
        | error e => simp [complete, setBusy, hfinished, scoreAfter, hr, h.score]
        | ok v =>
            -- the score is made of the counts after this forgery
            rw [hr] at hattempts hcaught
            rw [hfinished, scoreAfter, hr, ← hfinished, ← hattempts, ← hcaught]
            rfl
  · have hrecent : calls.recent = c :: s.calls.recent := by rw [(Calls.finish_cases hc).2]
    rw [complete_calls]
    change _ = resultAfter b calls.recent
    rw [hrecent]
    cases hr : b.verify c.2.pkg with
    | ok v => simp [mounted_complete_ok, resultAfter, hr, Except.toOption]
    | error e =>
        rw [mounted_complete_error]
        simp [h.shown, resultAfter, hr, Except.toOption]

theorem Stands.step {s s' : Lab V} {submits : Bool} (h : s.Stands b) (hs : Steps b s submits s') :
    s'.Stands b := by
  cases hs with
  | forge f henabled =>
      have hturn := h.inTurn
      rw [henabled] at hturn
      exact ⟨hturn.forge f, rfl, h.attempts, h.caught, h.score, h.shown⟩
  | reset henabled =>
      have hturn := h.inTurn
      rw [← h.disabled, henabled] at hturn
      refine ⟨?_, h.disabled, h.attempts, h.caught, h.score, rfl⟩
      rw [← h.disabled, henabled]
      exact hturn.reset
  | @failed k w calls hc e =>
      have hc' := (Calls.take_cases hc).2
      have hfinished : calls.finished = s.calls.finished := by rw [hc']
      have hrecent : calls.recent = s.calls.recent := by rw [hc']
      refine ⟨h.inTurn.failed hc, rfl, ?_, ?_, ?_, ?_⟩
      · exact hfinished ▸ h.attempts
      · exact hfinished ▸ h.caught
      · exact hfinished ▸ h.score
      · rw [setBusy, mounted_append_error, h.shown]
        exact congrArg (resultAfter b) hrecent.symm
  | @forged k w calls hc pkg =>
      have hfinished : calls.finished = s.calls.finished := by rw [(Calls.take_cases hc).2]
      -- a forgery was waiting, so the buttons are disabled
      have hbusy : s.forgeriesDisabled = true := by
        cases hd : s.forgeriesDisabled with
        | true => rfl
        | false =>
            have hturn := h.inTurn
            have hlength := (Calls.take_cases hc).1.length_eq
            rw [hd] at hturn
            rw [hturn.idle.1] at hlength
            simp at hlength
      refine ⟨hbusy ▸ h.inTurn.forged hc pkg, h.disabled, ?_, ?_, ?_, rfl⟩
      · exact hfinished ▸ h.attempts
      · exact hfinished ▸ h.caught
      · exact hfinished ▸ h.score
  | verified hc => exact h.verified hc

/-! ## The verdict of the last package -/

/-- With nothing under way, what is mounted is the result for the package that was submitted last, and no
    result if its verification threw; and the score describes that submission, if there is a result that it
    can describe. -/
def ShowsLast (b : Bench V) (s : Lab V) : Prop :=
  s.calls.Quiet → ∀ n, s.calls.Newest n →
    mounted s.verdictHost = (b.verify n.2.pkg).toOption.toList ∧
    ∀ v, b.verify n.2.pkg = .ok v →
      s.score = describe b v (caughtOf b s.calls.finished) (attemptsOf b s.calls.finished) n.2.source

/-- With nothing under way and a forgery submitted last: what completed after it is the verification that the
    lab opened with, which had the same result; and if the forgery's verification threw, nothing else has
    completed since it started. Unless verifying the clean proof throws. -/
def InOrder (b : Bench V) (s : Lab V) : Prop :=
  s.calls.Quiet → ∀ n, s.calls.Newest n → n.2.source.isForgery = true → ∀ w, b.verify b.clean = .ok w →
    (∀ v, b.verify n.2.pkg = .ok v → ∀ c ∈ s.calls.late n, c.2.source = .initial ∧ w = v) ∧
    ∀ e, b.verify n.2.pkg = .error e → ∀ c ∈ s.calls.recent, c = n

/-- A clean proof is no attempt. -/
theorem counts_clean {late : List (Nat × Submission)} (h : ∀ c ∈ late, IsClean b c)
    (cs : List (Nat × Submission)) :
    attemptsOf b (late ++ cs) = attemptsOf b cs ∧ caughtOf b (late ++ cs) = caughtOf b cs := by
  constructor
  · rw [attemptsOf, List.countP_append, List.countP_eq_zero.mpr fun c hc => by simp [(h c hc).1], Nat.zero_add,
      attemptsOf]
  · rw [caughtOf, List.countP_append, List.countP_eq_zero.mpr fun c hc => by simp [(h c hc).1], Nat.zero_add,
      caughtOf]

/-- Verifications that throw leave the last result and the score as they were. -/
theorem after_throwing {e : String} (he : b.verify b.clean = .error e) : ∀ {late : List (Nat × Submission)},
    (∀ c ∈ late, IsClean b c) → ∀ cs, resultAfter b (late ++ cs) = resultAfter b cs ∧
      scoreAfter b (late ++ cs) = scoreAfter b cs := by
  intro late
  induction late with
  | nil => exact fun _ cs => ⟨rfl, rfl⟩
  | cons c late ih =>
      intro h cs
      obtain ⟨⟨_, hpkg⟩, h⟩ := List.forall_mem_cons.mp h
      obtain ⟨hresult, hscore⟩ := ih h cs
      constructor
      · rw [← hresult]
        simp [resultAfter, hpkg, he, Except.toOption]
      · rw [← hscore, List.cons_append, scoreAfter, hpkg, he]
        cases c.2.source <;> rfl

/-- After a clean proof's result comes another's: the result is the last, the score that of a reset if there
    was one. -/
theorem after_clean {w : V} (hw : b.verify b.clean = .ok w) : ∀ {late : List (Nat × Submission)},
    (∀ c ∈ late, IsClean b c) → ∀ cs,
      resultAfter b (late ++ cs) = (if late = [] then resultAfter b cs else [w]) ∧
      ((∀ c ∈ late, c.2.source = .initial) → scoreAfter b (late ++ cs) = scoreAfter b cs) ∧
      (¬ (∀ c ∈ late, c.2.source = .initial) → scoreAfter b (late ++ cs) = cleanProofRestored) := by
  intro late
  induction late with
  | nil => exact fun _ cs => ⟨rfl, fun _ => rfl, fun h => absurd (by simp) h⟩
  | cons c late ih =>
      intro h cs
      obtain ⟨⟨hf, hpkg⟩, h⟩ := List.forall_mem_cons.mp h
      obtain ⟨_, hinitial, hreset⟩ := ih h cs
      refine ⟨by simp [resultAfter, hpkg, hw, Except.toOption], ?_⟩
      rw [List.cons_append, List.forall_mem_cons]
      cases hs : c.2.source with
      | initial =>
          have hscore : scoreAfter b (c :: (late ++ cs)) = scoreAfter b (late ++ cs) := by
            rw [scoreAfter, hs]
          rw [hscore]
          simp only [true_and]
          exact ⟨hinitial, hreset⟩
      | reset =>
          have hscore : scoreAfter b (c :: (late ++ cs)) = cleanProofRestored := by
            simp [scoreAfter, hs, hpkg, hw]
          simp [hscore]
      | forgery f => simp [hs, Source.isForgery] at hf

/-- The lab never says of a forgery that the clean proof is restored. -/
theorem forgeryScore_ne (f : Forgery) (passed : Bool) (caught attempts : Nat) :
    forgeryScore f passed caught attempts ≠ cleanProofRestored := by
  intro h
  have h := congrArg String.toList h
  cases passed <;> simp [forgeryScore, cleanProofRestored] at h

/-- With nothing submitted, the score is the one the lab opened with. -/
theorem score_initial : ∀ {cs : List (Nat × Submission)}, (∀ c ∈ cs, c.2.source = .initial) →
    scoreAfter b cs = pickATamper := by
  intro cs
  induction cs with
  | nil => exact fun _ => rfl
  | cons c cs ih =>
      intro h
      obtain ⟨hs, h⟩ := List.forall_mem_cons.mp h
      rw [scoreAfter, hs]
      exact ih h

/-- What completed after the newest submission is clean. -/
theorem Stands.late_clean {s : Lab V} (h : s.Stands b) (hq : s.calls.Quiet) {n : Nat × Submission}
    (hn : s.calls.Newest n) : ∀ c ∈ s.calls.late n, IsClean b c := by
  intro c hc
  have hrecent := Calls.mem_recent_of_late h.inTurn.recent (h.inTurn.mem_recent hq hn) hc
  refine h.inTurn.recent_clean hn hrecent fun hcn => ?_
  rw [hcn] at hc
  exact Calls.not_mem_late hc

/-- A result that is among the first is found there. -/
theorem resultAfter_prefix {cs cs' : List (Nat × Submission)} (h : cs <+: cs') {n : Nat × Submission}
    (hn : n ∈ cs) {v : V} (hv : b.verify n.2.pkg = .ok v) : resultAfter b cs' = resultAfter b cs := by
  obtain ⟨rest, rfl⟩ := h
  have hsome : (cs.findSome? fun c => (b.verify c.2.pkg).toOption) ≠ none := fun hnone => by
    have := List.findSome?_eq_none_iff.mp hnone n hn
    simp [hv, Except.toOption] at this
  rw [resultAfter, resultAfter, List.findSome?_append, Option.or_of_isSome (Option.isSome_iff_ne_none.mpr hsome)]

/-- Once the newest submission has a result, the last result is mounted. -/
theorem Stands.shown_ok {s : Lab V} (h : s.Stands b) (hq : s.calls.Quiet) {n : Nat × Submission}
    (hn : s.calls.Newest n) {v : V} (hv : b.verify n.2.pkg = .ok v) :
    mounted s.verdictHost = resultAfter b s.calls.finished := by
  rw [h.shown, resultAfter_prefix h.inTurn.recent (h.inTurn.mem_recent hq hn) hv]

/-- A submission whose verification threw leaves no result mounted, unless a clean proof's comes from the
    time since it started. -/
theorem Stands.shown_error {s : Lab V} (h : s.Stands b) {n : Nat × Submission}
    (hn : s.calls.Newest n) {e : String} (he : b.verify n.2.pkg = .error e) :
    mounted s.verdictHost = [] ↔ (n.2.source.isForgery = true → ∀ w, b.verify b.clean = .ok w →
      ∀ c ∈ s.calls.recent, c = n) := by
  have hnone : mounted s.verdictHost = [] ↔
      ∀ c ∈ s.calls.recent, (b.verify c.2.pkg).toOption = none := by
    rw [h.shown, resultAfter, Option.toList_eq_nil_iff, List.findSome?_eq_none_iff]
  rw [hnone]
  constructor
  · intro hall _ w hw c hc
    by_contra hne
    have := hall c hc
    rw [(h.inTurn.recent_clean hn hc hne).2, hw] at this
    cases this
  · intro honly c hc
    by_cases hcn : c = n
    · rw [hcn, he]; rfl
    · rw [(h.inTurn.recent_clean hn hc hcn).2]
      cases hw : b.verify b.clean with
      | error e' => rfl
      | ok w =>
          cases hf : n.2.source.isForgery with
          | true => exact absurd (honly hf w hw c hc) hcn
          | false =>
              rw [h.inTurn.clean n hn.mem hf, hw] at he
              cases he

theorem Stands.inOrder {s : Lab V} (h : s.Stands b) (hshows : s.ShowsLast b) : s.InOrder b := by
  intro hq n hn hf w hw
  obtain ⟨hmounted, hscore⟩ := hshows hq n hn
  constructor
  · intro v hv c hc
    obtain ⟨rest, hsplit⟩ := h.inTurn.wf.finished_split (hn.finished hq.2)
    obtain ⟨hresult, _, hreset⟩ := after_clean hw (h.late_clean hq hn) (n :: rest)
    have hscore := hscore v hv
    rw [h.shown_ok hq hn hv, hsplit, hresult, if_neg (List.ne_nil_of_mem hc), hv] at hmounted
    refine ⟨?_, (List.cons.inj hmounted).1⟩
    by_contra hne
    -- the score would be that of a reset
    rw [h.score, hsplit, hreset fun hall => hne (hall c hc)] at hscore
    cases hs : n.2.source with
    | initial => simp [hs, Source.isForgery] at hf
    | reset => simp [hs, Source.isForgery] at hf
    | forgery f => rw [hs] at hscore; exact forgeryScore_ne _ _ _ _ hscore.symm
  · intro e he
    rw [he] at hmounted
    exact (h.shown_error hn he).mp hmounted hf w hw

/-- The last result is that of the newest submission. -/
theorem Stands.result {s : Lab V} (h : s.Stands b) (hord : s.InOrder b) (hq : s.calls.Quiet)
    {n : Nat × Submission} (hn : s.calls.Newest n) {v : V} (hv : b.verify n.2.pkg = .ok v) :
    resultAfter b s.calls.finished = [v] := by
  have hlate := h.late_clean hq hn
  obtain ⟨rest, hsplit⟩ := h.inTurn.wf.finished_split (hn.finished hq.2)
  have hlast : resultAfter b (n :: rest) = [v] := by simp [resultAfter, hv, Except.toOption]
  cases hw : b.verify b.clean with
  | error e => rw [hsplit, (after_throwing hw hlate _).1, hlast]
  | ok w =>
      rw [hsplit, (after_clean hw hlate _).1, hlast]
      split
      · rfl
      · rename_i hne
        obtain ⟨c, hc⟩ := List.exists_mem_of_ne_nil _ hne
        cases hf : n.2.source.isForgery with
        | true => rw [((hord hq n hn hf w hw).1 v hv c hc).2]
        | false =>
            rw [h.inTurn.clean n hn.mem hf, hw] at hv
            rw [Except.ok.inj hv]

/-- The score is that of the newest submission. -/
theorem Stands.scored {s : Lab V} (h : s.Stands b) (hord : s.InOrder b) (hq : s.calls.Quiet)
    {n : Nat × Submission} (hn : s.calls.Newest n) {v : V} (hv : b.verify n.2.pkg = .ok v) :
    scoreAfter b s.calls.finished =
      describe b v (caughtOf b s.calls.finished) (attemptsOf b s.calls.finished) n.2.source := by
  have hlate := h.late_clean hq hn
  obtain ⟨rest, hsplit⟩ := h.inTurn.wf.finished_split (hn.finished hq.2)
  cases hs : n.2.source with
  | initial =>
      exact score_initial fun c hc => h.inTurn.initial n hn hs c (List.mem_append_right _ hc)
  | reset =>
      have hlast : scoreAfter b (n :: rest) = cleanProofRestored := by simp [scoreAfter, hs, hv]
      rw [h.inTurn.clean n hn.mem (by rw [hs]; rfl)] at hv
      obtain ⟨_, hinitial, hreset⟩ := after_clean hv hlate (n :: rest)
      rw [hsplit]
      by_cases hall : ∀ c ∈ s.calls.late n, c.2.source = .initial
      · rw [hinitial hall, hlast]; rfl
      · rw [hreset hall]; rfl
  | forgery f =>
      have hlast : scoreAfter b (n :: rest) =
          forgeryScore f (b.passed v) (caughtOf b (n :: rest)) (attemptsOf b (n :: rest)) := by
        simp [scoreAfter, hs, hv]
      obtain ⟨hattempts, hcaught⟩ := counts_clean hlate (n :: rest)
      rw [hsplit, hattempts, hcaught]
      cases hw : b.verify b.clean with
      | error e => rw [(after_throwing hw hlate _).2, hlast]; rfl
      | ok w =>
          have hall : ∀ c ∈ s.calls.late n, c.2.source = .initial := fun c hc =>
            ((hord hq n hn (by rw [hs]; rfl) w hw).1 v hv c hc).1
          rw [(after_clean hw hlate _).2.1 hall, hlast]
          rfl

theorem Stands.showsLast_iff {s : Lab V} (h : s.Stands b) : s.ShowsLast b ↔ s.InOrder b := by
  refine ⟨h.inOrder, fun hord hq n hn => ⟨?_, fun v hv => ?_⟩⟩
  · cases hv : b.verify n.2.pkg with
    | ok v => rw [h.shown_ok hq hn hv, h.result hord hq hn hv]; rfl
    | error e => exact (h.shown_error hn hv).mpr fun hf w hw => (hord hq n hn hf w hw).2 e hv
  · rw [h.score, h.scored hord hq hn hv]

/-! ## One at a time -/

theorem serial_start (b : Bench V) : (start b).calls.Serial := by
  refine Calls.Serial.start Calls.Serial.empty.issue.1 ⟨rfl, rfl⟩ ?_ Nat.one_pos ?_ _
  · exact Calls.Wf.empty.issue.2.1
  · exact fun _ hm => absurd hm List.not_mem_nil

theorem serial_step {s s' : Lab V} {submits : Bool} (h : s.calls.Serial) (hs : Steps b s submits s')
    (hq : submits = true → s.calls.Quiet) : s'.calls.Serial := by
  cases hs with
  | forge f _ => exact h.submit (hq rfl) f
  | reset _ =>
      obtain ⟨_, hfresh, hlt⟩ := h.wf.issue
      exact h.issue.1.start (hq rfl) hfresh hlt h.issue.2 _
  | failed hc e => exact (h.take hc).1
  | forged hc pkg =>
      obtain ⟨_, hfresh, hlt⟩ := h.wf.take hc
      obtain ⟨hserial, hquiet, hnewer⟩ := h.take hc
      exact hserial.start hquiet hfresh hlt hnewer _
  | verified hc => rw [complete_calls]; exact h.finish hc

/-- **One at a time, the lab is right**: no click while anything is under way. -/
theorem showsLast_of_serial {as : List LabAct} {s : Lab V}
    (hmeets : Meets (step b) (fun s a => a.Submits = true → s.calls.Quiet) (start b) as)
    (hrun : exec (step b) (start b) as = some s) : s.ShowsLast b := by
  have h : s.Stands b ∧ s.calls.Serial :=
    exec_guarded (P := fun s => s.Stands b ∧ s.calls.Serial)
      (fun _ _ _ h hok hs => ⟨h.1.step (step_cases hs), serial_step h.2 (step_cases hs) hok⟩) as
      ⟨.start b, serial_start b⟩ hmeets hrun
  refine h.1.showsLast_iff.mpr fun hq n hn _ w _ => ⟨fun v _ c hc => ?_, fun e _ c hc => ?_⟩
  · rw [h.2.late_eq_nil hn (hn.finished hq.2)] at hc
    cases hc
  · exact h.2.eq_of_recent hq hc (h.1.inTurn.mem_recent hq hn)

end Lab

/-! ## When the last package's verdict is shown -/

end Web
end InfrixPlayground
