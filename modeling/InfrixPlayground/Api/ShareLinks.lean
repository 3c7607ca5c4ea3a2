import InfrixPlayground.Api.StoreSys

/-!
# `Api.ShareLinks` — what a share link shows

`Put` hands out an id that stands for the run in the `done` event, in the run's snapshot and in its share
link. The id is derived from the receipt alone, so a later run with the same receipt takes the link over,
with its own mode, flow, labels and bundle. `holderAfter` is who holds an id after any run of the store,
and `link_stable_iff` says exactly when the holder still shows what was shared.
-/

namespace InfrixPlayground
namespace Api

open Machine

variable {X : Externals} {C : RunCodec X}

/-- A stored run as its share link shows it: everything but the receipt the id stands for. -/
structure SameLink (run run' : StoredRun X) : Prop where
  mode : run.mode = run'.mode
  flow : run.flow = run'.flow
  network : run.network = run'.network
  proofLabel : run.proofLabel = run'.proofLabel
  bundleJSON : run.bundleJSON = run'.bundleJSON

/-- `Get` of `r`'s id returns a run with `r`'s own fields. -/
def StoreSys.ShowsLink (r : StoredRun X) (s : StoreSys C) : Prop :=
  ∃ rec, s.store.get r.id = some rec ∧ SameLink rec r

/-- A `Cleanup` whose cutoff lies after `r`'s creation. -/
def Expires (r : StoredRun X) : StoreAction X → Prop
  | .cleanup now maxAge => r.createdAt < cutoff now maxAge
  | _ => False

/-- The run under `id` after some steps, if `held` was there before them. -/
def holderAfter (id : String) : Option (StoredRun X) → List (StoreAction X) → Option (StoredRun X)
  | held, [] => held
  | held, .put run now :: as =>
    match StoredRun.prepare now (some run) with
    | .ok rec => holderAfter id (if id = rec.id then some rec else held) as
    | .error _ => holderAfter id held as
  | held, .cleanup now maxAge :: as =>
    holderAfter id (held.filter fun rec => !decide (rec.createdAt < cutoff now maxAge)) as
  | held, .finish _ _ :: as => holderAfter id held as

/-- The step leaves the link as it was: a run put under the id shows what `r` shows, and no `Cleanup`
    expires the run that holds the id. -/
def StoreSys.KeepsLink (r : StoredRun X) (s : StoreSys C) : StoreAction X → Prop
  | .put run now => ∀ rec, StoredRun.prepare now (some run) = .ok rec → r.id = rec.id → SameLink rec r
  | .cleanup now maxAge => ∀ rec, s.store.get r.id = some rec → cutoff now maxAge ≤ rec.createdAt
  | .finish _ _ => True

/-- **The holder of an id.** What `Get` returns after a run of the store is determined by the `Put`s under
    the id and the `Cleanup`s, whatever else happens in between. -/
theorem get_exec {id : String} : ∀ (as : List (StoreAction X)) {s t : StoreSys C},
    exec StoreSys.step s as = some t → t.store.get id = holderAfter id (s.store.get id) as := by
  intro as
  induction as with
  | nil => intro s t he; rw [exec_nil] at he; cases he; rfl
  | cons a as ih =>
      intro s t he
      obtain ⟨s', hs, hrest⟩ := exec_cons_iff.mp he
      rw [ih hrest]
      cases store_step hs with
      | refused hp => simp only [holderAfter, hp]
      | put hp => simp only [holderAfter, hp]; rw [get_insert]
      | cleanup => rw [holderAfter, get_expire]
      | removed hi => rfl
      | wrote hi hd => rfl
      | returned hi hd => rfl

/-- **The step lemma.** A step that does not expire `r` leaves its link showing `r` exactly when it keeps
    it. -/
theorem showsLink_step {r : StoredRun X} {s s' : StoreSys C} {a : StoreAction X}
    (hs : s.ShowsLink r) (h : s.step a = some s') : s'.ShowsLink r ↔ s.KeepsLink r a := by
  obtain ⟨held, hget, hsame⟩ := hs
  cases store_step h with
  | refused hp =>
      exact ⟨fun _ rec hrec => by rw [hp] at hrec; exact absurd hrec (by simp),
        fun _ => ⟨held, hget, hsame⟩⟩
  | @put run rec now hp =>
      -- the new run takes the link over if it has the same receipt id
      have hafter : (s.store.insert rec).get r.id = if r.id = rec.id then some rec else some held := by
        rw [get_insert, hget]
      constructor
      · rintro ⟨rec', hrec', hsame'⟩ rec'' hp' hid
        cases Except.ok.inj (hp.symm.trans hp')
        have hnow : (s.store.insert rec).get r.id = some rec' := hrec'
        rw [hafter, if_pos hid] at hnow
        cases hnow; exact hsame'
      · intro hkeep
        by_cases hid : r.id = rec.id
        · exact ⟨rec, by show (s.store.insert rec).get r.id = _; rw [hafter, if_pos hid],
            hkeep rec hp hid⟩
        · exact ⟨held, by show (s.store.insert rec).get r.id = _; rw [hafter, if_neg hid], hsame⟩
  | @cleanup now maxAge =>
      constructor
      · rintro ⟨rec', hrec', _⟩ rec hrec
        obtain ⟨hrec', hage⟩ := get_expire_eq_some.mp hrec'
        cases Option.some.inj (hrec.symm.trans hrec'); exact hage
      · intro hkeep
        exact ⟨held, get_expire_eq_some.mpr ⟨hget, hkeep held hget⟩, hsame⟩
  | removed hi => exact ⟨fun _ => trivial, fun _ => ⟨held, hget, hsame⟩⟩
  | wrote hi hd => exact ⟨fun _ => trivial, fun _ => ⟨held, hget, hsame⟩⟩
  | returned hi hd => exact ⟨fun _ => trivial, fun _ => ⟨held, hget, hsame⟩⟩

/-- **When a share link is stable.** `r` is put (`s₁`), its `Put` returns some steps later (`s₂`), and the
    store runs on (`as`). Every `Get` from then on, until `r` expires, shows `r`'s own fields exactly when
    at the return the id is held by a run that shows the same as `r`, and from then on every run put under
    the id shows the same as `r` and no `Cleanup` expires the run that holds the id. -/
theorem link_stable_iff {s s₁ s₂ t : StoreSys C} {run r : StoredRun X} {now : Time}
    {mid as : List (StoreAction X)} (hprep : StoredRun.prepare now (some run) = .ok r)
    (hput : s.step (.put run now) = some s₁) (hmid : exec StoreSys.step s₁ mid = some s₂)
    (hrun : exec StoreSys.step s₂ as = some t) :
    HoldsUntil StoreSys.step (Expires r) (StoreSys.ShowsLink r) s₂ as ↔
      (∃ held, holderAfter r.id (some r) mid = some held ∧ SameLink held r) ∧
        MeetsUntil StoreSys.step (Expires r) (StoreSys.KeepsLink r) s₂ as := by
  have hget₁ : s₁.store.get r.id = some r := by
    simp only [StoreSys.step, hprep, Option.some.injEq] at hput
    rw [← hput, get_insert, if_pos rfl]
  have hshows : s₂.ShowsLink r ↔ ∃ held, holderAfter r.id (some r) mid = some held ∧ SameLink held r := by
    rw [← hget₁, ← get_exec mid hmid]; rfl
  have hexact : s₂.ShowsLink r → (HoldsUntil StoreSys.step (Expires r) (StoreSys.ShowsLink r) s₂ as ↔
      MeetsUntil StoreSys.step (Expires r) (StoreSys.KeepsLink r) s₂ as) := fun hs =>
    holdsUntil_iff (I := fun _ => True) (fun _ _ _ _ _ => trivial)
      (fun _ _ _ _ hs _ h => showsLink_step hs h) as trivial hs hrun
  rw [← hshows]
  constructor
  · intro h; exact ⟨h.head, (hexact h.head).mp h⟩
  · rintro ⟨hs, h⟩; exact (hexact hs).mpr h

/-- A golden-escrow run is put and returned, then a create-did run with the same receipt is put, and the
    first run's link shows the second: nothing expired. -/
theorem link_taken_over : ∃ r t, StoredRun.prepare 1 (some (sampleRun "golden-escrow")) = .ok r ∧
    exec StoreSys.step sampleSys [.put (sampleRun "golden-escrow") 1, .finish 0 .ok,
      .put (sampleRun "create-did") 2, .finish 0 .ok] = some t ∧ ¬ t.ShowsLink r := by
  have hrun : (exec StoreSys.step sampleSys [.put (sampleRun "golden-escrow") 1, .finish 0 .ok,
      .put (sampleRun "create-did") 2, .finish 0 .ok]).map (fun t =>
        (t.store.get "696e74656e74").map fun run => run.flow) = some (some "create-did") := by
    decide +kernel
  obtain ⟨t, ht, hflow⟩ := Option.map_eq_some_iff.mp hrun
  refine ⟨_, t, rfl, ht, ?_⟩
  rintro ⟨rec, hrec, hsame⟩
  have hid : t.store.get "696e74656e74" = some rec := hrec
  rw [hid, Option.map_some, Option.some.injEq, hsame.flow] at hflow
  exact absurd hflow (by decide)

/-- After the link was given out: the same run once more, a run with another receipt, and the `Cleanup` that expires
    the first. -/
def linkRun : List (StoreAction sampleX) :=
  [.put (sampleRun "golden-escrow") 2, .finish 0 .ok, .put sampleOther 3, .finish 0 .ok, .cleanup 10 (8 * second)]

/-- Two runs are put after the first one, under its id and under another, and its link shows it until it expires. -/
theorem link_stable_iff_sample : ∃ (s₁ s₂ t : StoreSys (sampleCodec sampleX)) (r : StoredRun sampleX),
    sampleSys.step (.put (sampleRun "golden-escrow") 1) = some s₁ ∧
      exec StoreSys.step s₁ [.finish 0 .ok] = some s₂ ∧ exec StoreSys.step s₂ linkRun = some t ∧
        HoldsUntil StoreSys.step (Expires r) (StoreSys.ShowsLink r) s₂ linkRun := by
  have hsome : (exec StoreSys.step sampleSys
      (.put (sampleRun "golden-escrow") 1 :: ([.finish 0 .ok] ++ linkRun))).isSome = true := by decide +kernel
  obtain ⟨t, hrun⟩ := Option.isSome_iff_exists.mp hsome
  obtain ⟨s₁, hput, hrest⟩ := exec_cons_iff.mp hrun
  obtain ⟨s₂, hmid, hend⟩ := exec_append_iff.mp hrest
  obtain ⟨r, hprep⟩ : ∃ r, StoredRun.prepare 1 (some (sampleRun "golden-escrow")) = .ok r := ⟨_, rfl⟩
  have hagain : ∃ r', StoredRun.prepare 2 (some (sampleRun "golden-escrow")) = .ok r' ∧ SameLink r' r := by
    cases hprep
    exact ⟨_, rfl, rfl, rfl, rfl, rfl, rfl⟩
  have hother : ∃ r', StoredRun.prepare 3 (some sampleOther) = .ok r' ∧ r.id ≠ r'.id := by
    cases hprep
    exact ⟨_, rfl, by decide +kernel⟩
  refine ⟨s₁, s₂, t, r, hput, hmid, hend, (link_stable_iff hprep hput hmid hend).mpr ⟨⟨r, rfl, rfl, rfl, rfl, rfl, rfl⟩, ?_⟩⟩
  refine meetsUntil_of_forall (fun a ha hstop s => ?_) s₂
  simp only [linkRun, List.mem_cons, List.not_mem_nil, or_false] at ha
  rcases ha with rfl | rfl | rfl | rfl | rfl
  · obtain ⟨r', hr', hsame⟩ := hagain
    exact fun rec hrec _ => Except.ok.inj (hr'.symm.trans hrec) ▸ hsame
  · trivial
  · obtain ⟨r', hr', hne⟩ := hother
    exact fun rec hrec hid => absurd (Except.ok.inj (hr'.symm.trans hrec) ▸ hid) hne
  · trivial
  · have hcreated : r.createdAt < cutoff 10 (8 * second) := by
      cases hprep
      decide +kernel
    exact absurd hcreated hstop

end Api
end InfrixPlayground
