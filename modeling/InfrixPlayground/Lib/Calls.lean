import Mathlib.Data.List.Perm.Basic
import Mathlib.Data.List.TakeWhile
import Mathlib.Data.List.Nodup
import Mathlib.Order.Basic

/-!
# `Lib.Calls` — submissions and the calls they start

A submission is numbered when it is made, waits until its call can start, and its call completes whenever it
does. With nothing waiting and nothing pending, every call has completed; those that did so after the one of
the newest submission are `late`, and there are none if each submission was made after all else had settled.
-/

/-- The submissions whose call has not started, the calls in flight, those that have completed, and those
    that have done so since a call last started, both the latest first. -/
structure Calls (ω γ : Type*) where
  issued : Nat
  waiting : List (Nat × ω)
  pending : List (Nat × γ)
  finished : List (Nat × γ)
  recent : List (Nat × γ)

namespace Calls

variable {ω γ : Type*}

def empty : Calls ω γ := { issued := 0, waiting := [], pending := [], finished := [], recent := [] }

/-- A submission whose call cannot start yet. -/
def submit (c : Calls ω γ) (w : ω) : Calls ω γ :=
  { c with issued := c.issued + 1, waiting := c.waiting ++ [(c.issued, w)] }

/-- The `k`th of the waiting submissions is done waiting. -/
def take (c : Calls ω γ) (k : Nat) : Option ((Nat × ω) × Calls ω γ) :=
  match c.waiting[k]? with
  | some w => some (w, { c with waiting := c.waiting.eraseIdx k })
  | none => none

/-- The call of submission `i` starts. -/
def start (c : Calls ω γ) (i : Nat) (g : γ) : Calls ω γ :=
  { c with pending := c.pending ++ [(i, g)], recent := [] }

/-- A submission whose call, if there is one, starts at once. -/
def issue (c : Calls ω γ) : Calls ω γ := { c with issued := c.issued + 1 }

/-- The `k`th of the pending calls completes. -/
def finish (c : Calls ω γ) (k : Nat) : Option ((Nat × γ) × Calls ω γ) :=
  match c.pending[k]? with
  | some g => some (g, { c with
      pending := c.pending.eraseIdx k
      finished := g :: c.finished
      recent := g :: c.recent })
  | none => none

/-- Every call that has started. -/
def started (c : Calls ω γ) : List (Nat × γ) := c.pending ++ c.finished

def numbers (c : Calls ω γ) : List Nat := c.waiting.map Prod.fst ++ c.started.map Prod.fst

/-- Nothing is waiting and nothing is pending. -/
def Quiet (c : Calls ω γ) : Prop := c.waiting = [] ∧ c.pending = []

instance (c : Calls ω γ) [DecidableEq ω] [DecidableEq γ] : Decidable c.Quiet :=
  inferInstanceAs (Decidable (_ ∧ _))

/-- The call of the newest submission that has one. -/
structure Newest (c : Calls ω γ) (n : Nat × γ) : Prop where
  mem : n ∈ c.started
  max : ∀ m ∈ c.started, m.1 ≤ n.1

/-- The calls that have completed after `n`, the latest first. -/
def late (c : Calls ω γ) (n : Nat × γ) : List (Nat × γ) := c.finished.takeWhile fun m => decide (m.1 ≠ n.1)

/-- The calls that have been in flight since one last started. -/
def since (c : Calls ω γ) : List (Nat × γ) := c.pending ++ c.recent

/-- No number is used twice, and all were issued. -/
structure Wf (c : Calls ω γ) : Prop where
  nodup : c.numbers.Nodup
  lt_issued : ∀ i ∈ c.numbers, i < c.issued

/-! ## What the operations do -/

variable {c c' : Calls ω γ}

/-- One element leaves the list. -/
theorem perm_eraseIdx {α : Type*} {xs : List α} {k : Nat} {x : α} (h : xs[k]? = some x) :
    xs.Perm (x :: xs.eraseIdx k) := by
  obtain ⟨hk, rfl⟩ := List.getElem?_eq_some_iff.mp h
  exact (List.getElem_cons_eraseIdx_perm hk).symm

theorem take_cases {k : Nat} {w : Nat × ω} (h : c.take k = some (w, c')) :
    c.waiting.Perm (w :: c'.waiting) ∧ c' = { c with waiting := c'.waiting } := by
  unfold take at h
  split at h
  · rename_i w' hw
    cases h
    exact ⟨perm_eraseIdx hw, rfl⟩
  · cases h

theorem finish_cases {k : Nat} {g : Nat × γ} (h : c.finish k = some (g, c')) :
    c.pending.Perm (g :: c'.pending) ∧
      c' = { c with
        pending := c'.pending
        finished := g :: c.finished
        recent := g :: c.recent } := by
  unfold finish at h
  split at h
  · rename_i g' hg
    cases h
    exact ⟨perm_eraseIdx hg, rfl⟩
  · cases h

/-- Completing moves a call, and starts none. -/
theorem started_finish {k : Nat} {g : Nat × γ} (h : c.finish k = some (g, c')) :
    c.started.Perm c'.started := by
  obtain ⟨hperm, hc'⟩ := finish_cases h
  rw [hc']
  exact (hperm.append_right c.finished).trans List.perm_middle.symm

theorem since_finish {k : Nat} {g : Nat × γ} (h : c.finish k = some (g, c')) : c.since.Perm c'.since := by
  obtain ⟨hperm, hc'⟩ := finish_cases h
  rw [hc']
  exact (hperm.append_right c.recent).trans List.perm_middle.symm

theorem mem_started_start {i : Nat} {g : γ} {m : Nat × γ} :
    m ∈ (c.start i g).started ↔ m = (i, g) ∨ m ∈ c.started := by
  simp only [started, start, List.mem_append, List.mem_singleton]
  tauto

/-! ## Numbers -/

theorem Wf.empty : (empty : Calls ω γ).Wf where
  nodup := List.nodup_nil
  lt_issued := fun _ h => absurd h List.not_mem_nil

theorem Wf.of_perm (hc : c.Wf) (hissued : c.issued = c'.issued) (hperm : c.numbers.Perm c'.numbers) :
    c'.Wf where
  nodup := hperm.nodup_iff.mp hc.nodup
  lt_issued := fun i hi => hissued ▸ hc.lt_issued i (hperm.mem_iff.mpr hi)

/-- A fresh number may be used. -/
theorem Wf.cons (hc : c.Wf) (hissued : c.issued ≤ c'.issued) {i : Nat} (hi : i ∉ c.numbers)
    (hlt : i < c'.issued) (hperm : c'.numbers.Perm (i :: c.numbers)) : c'.Wf where
  nodup := hperm.nodup_iff.mpr (List.nodup_cons.mpr ⟨hi, hc.nodup⟩)
  lt_issued := by
    intro j hj
    rcases List.mem_cons.mp (hperm.mem_iff.mp hj) with rfl | hj
    · exact hlt
    · exact lt_of_lt_of_le (hc.lt_issued j hj) hissued

theorem Wf.fresh (hc : c.Wf) : c.issued ∉ c.numbers := fun h => lt_irrefl _ (hc.lt_issued _ h)

theorem numbers_start (c : Calls ω γ) (i : Nat) (g : γ) : (c.start i g).numbers.Perm (i :: c.numbers) := by
  unfold numbers started start
  simp only [List.map_append, List.map_cons, List.map_nil]
  rw [List.append_assoc, List.singleton_append]
  exact (List.perm_middle.append_left _).trans List.perm_middle

theorem Wf.submit (hc : c.Wf) (w : ω) : (c.submit w).Wf := by
  refine hc.cons (Nat.le_succ _) hc.fresh (Nat.lt_succ_self _) ?_
  unfold numbers started Calls.submit
  simp only [List.map_append, List.map_cons, List.map_nil]
  rw [List.append_assoc, List.singleton_append]
  exact List.perm_middle

theorem Wf.start (hc : c.Wf) {i : Nat} (hi : i ∉ c.numbers) (hlt : i < c.issued) (g : γ) :
    (c.start i g).Wf := hc.cons le_rfl hi hlt (numbers_start c i g)

theorem Wf.issue (hc : c.Wf) : c.issue.Wf ∧ c.issued ∉ c.issue.numbers ∧ c.issued < c.issue.issued :=
  ⟨⟨hc.nodup, fun i hi => Nat.lt_succ_of_lt (hc.lt_issued i hi)⟩, hc.fresh, Nat.lt_succ_self _⟩

/-- What was waiting keeps its number to itself. -/
theorem Wf.take (hc : c.Wf) {k : Nat} {w : Nat × ω} (h : c.take k = some (w, c')) :
    c'.Wf ∧ w.1 ∉ c'.numbers ∧ w.1 < c'.issued := by
  obtain ⟨hperm, hc'⟩ := take_cases h
  have hnumbers : c.numbers.Perm (w.1 :: c'.numbers) := by
    rw [hc']
    exact (hperm.map Prod.fst).append_right _
  have hissued : c'.issued = c.issued := by rw [hc']
  have hnodup := List.nodup_cons.mp (hnumbers.nodup_iff.mp hc.nodup)
  refine ⟨⟨hnodup.2, fun i hi => ?_⟩, hnodup.1, ?_⟩
  · exact hissued ▸ hc.lt_issued i (hnumbers.mem_iff.mpr (List.mem_cons_of_mem _ hi))
  · exact hissued ▸ hc.lt_issued w.1 (hnumbers.mem_iff.mpr List.mem_cons_self)

theorem Wf.finish (hc : c.Wf) {k : Nat} {g : Nat × γ} (h : c.finish k = some (g, c')) : c'.Wf := by
  have hc' := (finish_cases h).2
  have hstarted := started_finish h
  refine hc.of_perm (by rw [hc']) ?_
  have hwaiting : c'.waiting = c.waiting := by rw [hc']
  rw [numbers, numbers, hwaiting]
  exact (hstarted.map Prod.fst).append_left _

/-- A number tells a call. -/
theorem Wf.eq_of_number (hc : c.Wf) {m n : Nat × γ} (hm : m ∈ c.started) (hn : n ∈ c.started)
    (h : m.1 = n.1) : m = n :=
  List.inj_on_of_nodup_map (List.nodup_append.mp hc.nodup).2.1 hm hn h

/-! ## The newest submission -/

theorem Newest.unique (hc : c.Wf) {m n : Nat × γ} (hm : c.Newest m) (hn : c.Newest n) : m = n :=
  hc.eq_of_number hm.mem hn.mem (le_antisymm (hn.max m hm.mem) (hm.max n hn.mem))

theorem newest_congr (h : c'.started = c.started) {n : Nat × γ} : c'.Newest n ↔ c.Newest n :=
  ⟨fun hn => ⟨h ▸ hn.mem, h ▸ hn.max⟩, fun hn => ⟨h ▸ hn.mem, h ▸ hn.max⟩⟩

@[simp] theorem newest_submit {w : ω} {n : Nat × γ} : (c.submit w).Newest n ↔ c.Newest n :=
  newest_congr (show (c.submit w).started = c.started from rfl)

theorem newest_finish {k : Nat} {g n : Nat × γ} (h : c.finish k = some (g, c')) :
    c'.Newest n ↔ c.Newest n := by
  have hmem : ∀ m, m ∈ c'.started ↔ m ∈ c.started := fun m => (started_finish h).mem_iff.symm
  constructor
  · rintro ⟨hn, hmax⟩
    exact ⟨(hmem n).mp hn, fun m hm => hmax m ((hmem m).mpr hm)⟩
  · rintro ⟨hn, hmax⟩
    exact ⟨(hmem n).mpr hn, fun m hm => hmax m ((hmem m).mp hm)⟩

/-- A call whose number exceeds all others is the newest. -/
theorem newest_start {i : Nat} {g : γ} (h : ∀ m ∈ c.started, m.1 < i) {n : Nat × γ} :
    (c.start i g).Newest n ↔ n = (i, g) := by
  have hmax : ∀ m ∈ (c.start i g).started, m.1 ≤ i := by
    intro m hm
    rcases mem_started_start.mp hm with rfl | hm
    · exact le_rfl
    · exact le_of_lt (h m hm)
  have hself : (i, g) ∈ (c.start i g).started := mem_started_start.mpr (.inl rfl)
  constructor
  · rintro ⟨hn, hn'⟩
    rcases mem_started_start.mp hn with rfl | hold
    · rfl
    · exact absurd (hn' _ hself) (not_le.mpr (h n hold))
  · rintro rfl
    exact ⟨hself, hmax⟩

theorem Wf.lt_issued_of_started (hc : c.Wf) {m : Nat × γ} (hm : m ∈ c.started) : m.1 < c.issued :=
  hc.lt_issued m.1 (List.mem_append_right _ (List.mem_map_of_mem hm))

/-! ## Late calls -/

/-- What completed splits at a call into what came after it and what came before. -/
theorem Wf.finished_split (hc : c.Wf) {n : Nat × γ} (hn : n ∈ c.finished) :
    ∃ rest, c.finished = c.late n ++ n :: rest := by
  obtain ⟨m, rest, hm⟩ := List.exists_cons_of_ne_nil (l := c.finished.dropWhile fun m => decide (m.1 ≠ n.1))
    fun h => by simpa using List.dropWhile_eq_nil_iff.mp h n hn
  have hsplit : c.finished = c.late n ++ m :: rest := by
    rw [late, ← hm, List.takeWhile_append_dropWhile]
  have hnumber : m.1 = n.1 := by
    have := List.head?_dropWhile_not (fun m : Nat × γ => decide (m.1 ≠ n.1)) c.finished
    rw [hm] at this
    simpa using this
  have hmem : m ∈ c.finished := by rw [hsplit]; simp
  have : m = n :=
    hc.eq_of_number (List.mem_append_right _ hmem) (List.mem_append_right _ hn) hnumber
  exact ⟨rest, this ▸ hsplit⟩

theorem mem_finished_of_late {n m : Nat × γ} (h : m ∈ c.late n) : m ∈ c.finished :=
  (List.takeWhile_prefix _).mem h

theorem not_mem_late {n : Nat × γ} : n ∉ c.late n := by
  intro h
  have := List.mem_takeWhile_imp h
  simp at this

/-- What came after a recent call is recent. -/
theorem mem_recent_of_late {m n : Nat × γ} (hrecent : c.recent <+: c.finished) (hn : n ∈ c.recent)
    (h : m ∈ c.late n) : m ∈ c.recent := by
  obtain ⟨rest, hrest⟩ := hrecent
  have hlong : ¬ (c.recent.takeWhile fun m => decide (m.1 ≠ n.1)).length = c.recent.length := by
    intro hlen
    have hall := List.takeWhile_eq_self_iff.mp ((List.takeWhile_prefix _).eq_of_length hlen) n hn
    simp at hall
  rw [late, ← hrest, List.takeWhile_append, if_neg hlong] at h
  exact (List.takeWhile_prefix _).mem h

/-- With nothing pending, the newest call has completed. -/
theorem Newest.finished {n : Nat × γ} (h : c.Newest n) (hpending : c.pending = []) : n ∈ c.finished := by
  have := h.mem
  rwa [started, hpending, List.nil_append] at this

/-! ## One at a time -/

/-- At most one submission is on its way, and it is newer than all that have settled. -/
structure Serial (c : Calls ω γ) : Prop where
  wf : c.Wf
  single : c.waiting.length + c.pending.length ≤ 1
  alone : c.since.length ≤ 1
  newer : ∀ i ∈ c.waiting.map Prod.fst ++ c.pending.map Prod.fst, ∀ m ∈ c.finished, m.1 < i
  ordered : c.finished.Pairwise fun m m' => m'.1 < m.1

theorem Serial.empty : (empty : Calls ω γ).Serial where
  wf := .empty
  single := Nat.zero_le 1
  alone := Nat.zero_le 1
  newer := fun _ h => absurd h List.not_mem_nil
  ordered := .nil

theorem Serial.submit (hc : c.Serial) (hq : c.Quiet) (w : ω) : (c.submit w).Serial where
  wf := hc.wf.submit w
  single := by simp [Calls.submit, hq.1, hq.2]
  alone := hc.alone
  newer := by
    intro i hi m hm
    simp only [Calls.submit, hq.1, hq.2, List.nil_append, List.map_cons, List.map_nil,
      List.append_nil, List.mem_singleton] at hi
    exact hi ▸ hc.wf.lt_issued_of_started (List.mem_append_right _ hm)
  ordered := hc.ordered

/-- The one that was waiting leaves nothing else on its way. -/
theorem Serial.take (hc : c.Serial) {k : Nat} {w : Nat × ω} (h : c.take k = some (w, c')) :
    c'.Serial ∧ c'.Quiet ∧ ∀ m ∈ c'.finished, m.1 < w.1 := by
  obtain ⟨hperm, hc'⟩ := take_cases h
  have hfinished : c'.finished = c.finished := by rw [hc']
  have hpending : c'.pending = c.pending := by rw [hc']
  have hsingle := hc.single
  rw [hperm.length_eq, List.length_cons] at hsingle
  have hwaiting : c'.waiting = [] := List.length_eq_zero_iff.mp (by omega)
  have hquiet : c'.Quiet := ⟨hwaiting, hpending ▸ List.length_eq_zero_iff.mp (by omega)⟩
  have hsince : c'.since = c.since := by rw [hc']; rfl
  refine ⟨⟨(hc.wf.take h).1, by simp [hquiet.1, hquiet.2], hsince ▸ hc.alone, ?_, hfinished ▸ hc.ordered⟩,
    hquiet, ?_⟩
  · intro i hi
    simp [hquiet.1, hquiet.2] at hi
  · rw [hfinished]
    exact hc.newer w.1 (List.mem_append_left _ (List.mem_map_of_mem (hperm.mem_iff.mpr List.mem_cons_self)))

theorem Serial.start (hc : c.Serial) (hq : c.Quiet) {i : Nat} (hi : i ∉ c.numbers) (hlt : i < c.issued)
    (hnewer : ∀ m ∈ c.finished, m.1 < i) (g : γ) : (c.start i g).Serial where
  wf := hc.wf.start hi hlt g
  single := by simp [Calls.start, hq.1, hq.2]
  alone := by simp [Calls.start, since, hq.2]
  newer := by
    intro j hj m hm
    simp only [Calls.start, hq.1, hq.2, List.nil_append, List.map_cons, List.map_nil,
      List.mem_singleton] at hj
    exact hj ▸ hnewer m hm
  ordered := hc.ordered

theorem Serial.issue (hc : c.Serial) : c.issue.Serial ∧ ∀ m ∈ c.issue.finished, m.1 < c.issued :=
  ⟨⟨hc.wf.issue.1, hc.single, hc.alone, hc.newer, hc.ordered⟩,
    fun _ hm => hc.wf.lt_issued_of_started (List.mem_append_right _ hm)⟩

theorem Serial.finish (hc : c.Serial) {k : Nat} {g : Nat × γ} (h : c.finish k = some (g, c')) :
    c'.Serial := by
  obtain ⟨hperm, hc'⟩ := finish_cases h
  have hsingle := hc.single
  rw [hperm.length_eq, List.length_cons] at hsingle
  have hwaiting : c'.waiting = [] := by
    have : c.waiting = [] := List.length_eq_zero_iff.mp (by omega)
    rw [hc', this]
  have hpending : c'.pending = [] := List.length_eq_zero_iff.mp (by omega)
  have hfinished : c'.finished = g :: c.finished := by rw [hc']
  refine ⟨hc.wf.finish h, by simp [hwaiting, hpending], (since_finish h).length_eq ▸ hc.alone, ?_, ?_⟩
  · intro i hi
    simp [hwaiting, hpending] at hi
  · rw [hfinished]
    refine List.pairwise_cons.mpr ⟨fun m hm => ?_, hc.ordered⟩
    exact hc.newer g.1
      (List.mem_append_right _ (List.mem_map_of_mem (hperm.mem_iff.mpr List.mem_cons_self))) m hm

/-- **One at a time, nothing is late.** -/
theorem Serial.late_eq_nil (hc : c.Serial) {n : Nat × γ} (hn : c.Newest n) (hfin : n ∈ c.finished) :
    c.late n = [] := by
  obtain ⟨rest, hsplit⟩ := hc.wf.finished_split hfin
  have hordered := hc.ordered
  rw [hsplit] at hordered
  refine List.eq_nil_iff_forall_not_mem.mpr fun m hm => ?_
  have hlt : n.1 < m.1 := (List.pairwise_append.mp hordered).2.2 m hm n List.mem_cons_self
  exact absurd (hn.max m (List.mem_append_right _ (mem_finished_of_late hm))) (not_le.mpr hlt)

/-- One at a time, nothing else has completed since the last call started. -/
theorem Serial.eq_of_recent (hc : c.Serial) (hq : c.Quiet) {m n : Nat × γ} (hm : m ∈ c.recent)
    (hn : n ∈ c.recent) : m = n := by
  have halone := hc.alone
  rw [since, hq.2, List.nil_append] at halone
  match hrecent : c.recent, halone with
  | [g], _ =>
      rw [hrecent, List.mem_singleton] at hm hn
      exact hm.trans hn.symm
  | [], _ => rw [hrecent] at hm; cases hm

end Calls
