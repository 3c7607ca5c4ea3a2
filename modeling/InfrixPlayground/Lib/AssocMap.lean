import Mathlib.Data.List.AList

/-!
# `Lib.AssocMap` — what Mathlib's `AList` lacks for a map that is swept

`AList` is a finite map as an association list whose keys are distinct by construction. Programs also
*sweep* a map (drop every entry that fails a test); this file adds that operation and how it interacts
with lookup, plus the map built by inserting the elements of a list one after another.
-/

namespace AList

variable {α : Type*} {β : α → Type*} [DecidableEq α]

/-- Keep the entries that satisfy `p`. -/
def filter (p : (a : α) → β a → Bool) (s : AList β) : AList β :=
  ⟨s.entries.filter fun e => p e.1 e.2, s.nodupKeys.sublist List.filter_sublist⟩

/-- A swept map looks up what the map did, if it passed the test. -/
@[simp] theorem lookup_filter (p : (a : α) → β a → Bool) (s : AList β) (a : α) :
    (s.filter p).lookup a = (s.lookup a).filter (p a) := by
  ext b
  rw [← Option.mem_def, mem_lookup_iff, Option.filter_eq_some_iff, ← Option.mem_def, mem_lookup_iff]
  exact List.mem_filter

/-- A key is in the map exactly when its lookup hits. -/
theorem mem_iff_lookup {s : AList β} {a : α} : a ∈ s ↔ ∃ b, s.lookup a = some b := by
  rw [← lookup_isSome, Option.isSome_iff_exists]

/-- Lookup after an insertion, as one case split. -/
theorem lookup_insert_eq {γ : Type*} (s : AList fun _ : α => γ) (a a' : α) (b : γ) :
    (s.insert a b).lookup a' = if a' = a then some b else s.lookup a' := by
  by_cases h : a' = a
  · subst h; rw [if_pos rfl, lookup_insert]
  · rw [if_neg h, lookup_insert_ne h]

variable {γ δ : Type*}

/-! ## Counting values -/

/-- How many values satisfy `p`. -/
def countP (p : γ → Bool) (s : AList fun _ : α => γ) : Nat := s.entries.countP fun e => p e.2

omit [DecidableEq α] in
@[simp] theorem countP_empty (p : γ → Bool) : countP p (∅ : AList fun _ : α => γ) = 0 := rfl

/-- A new key adds its value to the count. -/
theorem countP_insert_new {p : γ → Bool} {s : AList fun _ : α => γ} {a : α} {b : γ}
    (h : s.lookup a = none) : (s.insert a b).countP p = s.countP p + (p b).toNat := by
  rw [countP, entries_insert_of_notMem (lookup_eq_none.mp h), List.countP_cons]
  cases p b <;> rfl

/-- A key that has a value loses it and gains the new one. -/
theorem countP_insert_old {p : γ → Bool} {s : AList fun _ : α => γ} {a : α} {b c : γ}
    (h : s.lookup a = some c) :
    (s.insert a b).countP p + (p c).toNat = s.countP p + (p b).toNat := by
  -- the entry of the key, split off the others
  obtain ⟨a', before, after, hbefore, hentries, herase⟩ :=
    List.exists_of_kerase (lookup_isSome.mp (by rw [h]; rfl))
  have hc : a' = c := by
    have hmem : (⟨a, a'⟩ : Sigma fun _ : α => γ) ∈ s.entries := by
      rw [hentries]; exact List.mem_append_right _ (List.mem_cons_self ..)
    exact Option.some.inj ((mem_lookup_iff.mpr hmem).symm.trans h)
  rw [countP, countP, entries_insert, herase, hentries, hc]
  simp only [List.countP_cons, List.countP_append]
  cases p b <;> cases p c <;> simp <;> omega

/-- What implies more is counted less. -/
theorem countP_eq_zero {p : γ → Bool} {s : AList fun _ : α => γ} :
    s.countP p = 0 ↔ ∀ a b, s.lookup a = some b → p b = false := by
  rw [countP, List.countP_eq_zero]
  constructor
  · exact fun h a b hl => Bool.eq_false_iff.mpr (h ⟨a, b⟩ (mem_lookup_iff.mp hl))
  · exact fun h e he => Bool.eq_false_iff.mp (h e.1 e.2 (mem_lookup_iff.mpr he))

theorem countP_mono {p q : γ → Bool} {s : AList fun _ : α => γ}
    (h : ∀ a b, s.lookup a = some b → p b = true → q b = true) : s.countP p ≤ s.countP q :=
  List.countP_mono_left fun e he => h e.1 e.2 (mem_lookup_iff.mpr he)

theorem countP_congr {p q : γ → Bool} {s : AList fun _ : α => γ}
    (h : ∀ a b, s.lookup a = some b → (p b = true ↔ q b = true)) : s.countP p = s.countP q :=
  List.countP_congr fun e he => h e.1 e.2 (mem_lookup_iff.mpr he)

omit [DecidableEq α] in
/-- What excludes each other is counted apart. -/
theorem countP_or {p q : γ → Bool} (s : AList fun _ : α => γ) (h : ∀ b, (p b && q b) = false) :
    s.countP (fun b => p b || q b) = s.countP p + s.countP q := by
  unfold countP
  induction s.entries with
  | nil => rfl
  | cons e l ih =>
      simp only [List.countP_cons, ih]
      have he := h e.2
      cases hp : p e.2 <;> cases hq : q e.2 <;> simp [hp, hq] at he ⊢ <;> omega

/-! ## Inserting a list of elements -/

/-- Insert the elements of `l` in order, each under its own key, skipping those `f` rejects. -/
def insertAll (f : δ → Option (α × γ)) (s : AList fun _ : α => γ) (l : List δ) :
    AList fun _ : α => γ :=
  l.foldl (fun m x => match f x with
    | some (a, b) => m.insert a b
    | none => m) s

/-- A key no element of the list inserts keeps its value. -/
theorem lookup_insertAll_of_not {f : δ → Option (α × γ)} {a : α} :
    ∀ (l : List δ) (s : AList fun _ : α => γ), (∀ x ∈ l, ∀ b, f x ≠ some (a, b)) →
      (insertAll f s l).lookup a = s.lookup a := by
  intro l
  induction l with
  | nil => intro s _; rfl
  | cons x l ih =>
      intro s h
      have hx := h x (by simp)
      have hl := fun y hy => h y (List.mem_cons_of_mem x hy)
      simp only [insertAll, List.foldl_cons] at ih ⊢
      rw [ih _ hl]
      cases hf : f x with
      | none => rfl
      | some kv =>
          obtain ⟨a', b'⟩ := kv
          have hne : a ≠ a' := by rintro rfl; exact hx b' hf
          exact lookup_insert_ne hne

/-- A key that exactly one value is inserted under ends up with that value. -/
theorem lookup_insertAll_of_mem {f : δ → Option (α × γ)} {a : α} {b : γ} :
    ∀ (l : List δ) (s : AList fun _ : α => γ), (∃ x ∈ l, f x = some (a, b)) →
      (∀ x ∈ l, ∀ b', f x = some (a, b') → b' = b) → (insertAll f s l).lookup a = some b := by
  intro l
  induction l with
  | nil => rintro s ⟨x, hx, _⟩; simp at hx
  | cons x l ih =>
      intro s hex huniq
      have hl := fun y hy => huniq y (List.mem_cons_of_mem x hy)
      by_cases hlater : ∃ y ∈ l, f y = some (a, b)
      · simp only [insertAll, List.foldl_cons] at ih ⊢
        exact ih _ hlater hl
      · -- no later element inserts under `a`, so the head's insertion stands
        obtain ⟨y, hy, hfy⟩ := hex
        rcases List.mem_cons.mp hy with rfl | hy
        · have hnot : ∀ z ∈ l, ∀ b', f z ≠ some (a, b') := by
            intro z hz b' hfz
            cases hl z hz b' hfz
            exact hlater ⟨z, hz, hfz⟩
          simp only [insertAll, List.foldl_cons, hfy]
          exact (lookup_insertAll_of_not l (s.insert a b) hnot).trans (lookup_insert s)
        · exact absurd ⟨y, hy, hfy⟩ hlater

/-- What is inserted under a key overrides what was there. -/
theorem lookup_insertAll_or {f : δ → Option (α × γ)} {a : α} : ∀ (l : List δ) (s : AList fun _ : α => γ),
    (insertAll f s l).lookup a = ((insertAll f ∅ l).lookup a).or (s.lookup a) := by
  intro l
  induction l with
  | nil => intro s; rw [show insertAll f ∅ [] = (∅ : AList fun _ : α => γ) from rfl, lookup_empty]; rfl
  | cons x l ih =>
      intro s
      cases hx : f x with
      | none => simp only [insertAll, List.foldl_cons, hx] at ih ⊢; exact ih s
      | some kv =>
          simp only [insertAll, List.foldl_cons, hx] at ih ⊢
          rw [ih (s.insert kv.1 kv.2), ih ((∅ : AList fun _ : α => γ).insert kv.1 kv.2), Option.or_assoc,
            lookup_insert_eq, lookup_insert_eq, lookup_empty]
          split <;> rfl

theorem insertAll_append {f : δ → Option (α × γ)} (s : AList fun _ : α => γ) (l l' : List δ) :
    insertAll f s (l ++ l') = insertAll f (insertAll f s l) l' := List.foldl_append

theorem insertAll_congr {f g : δ → Option (α × γ)} {l : List δ} (h : ∀ x ∈ l, f x = g x) (s : AList fun _ : α => γ) :
    insertAll f s l = insertAll g s l :=
  List.foldl_ext _ _ _ fun m x hx => by rw [h x hx]

/-- What every entry inserted satisfies, and every entry there was, every entry of the result does. -/
theorem insertAll_forall {f : δ → Option (α × γ)} {P : α → γ → Prop} :
    ∀ (l : List δ) (s : AList fun _ : α => γ), (∀ a b, s.lookup a = some b → P a b) →
      (∀ x a b, f x = some (a, b) → P a b) → ∀ a b, (insertAll f s l).lookup a = some b → P a b := by
  intro l
  induction l with
  | nil => intro s hs _; exact hs
  | cons x l ih =>
      intro s hs hf
      simp only [insertAll, List.foldl_cons] at ih ⊢
      refine ih _ ?_ hf
      cases hx : f x with
      | none => exact hs
      | some kv =>
          intro a b hab
          rw [lookup_insert_eq] at hab
          split at hab
          · rename_i ha; cases hab; rw [ha]; exact hf x _ _ hx
          · exact hs a b hab

/-- `x` is the last element of `l` that is inserted under `a`, with the value `b`. -/
def LastUnder (f : δ → Option (α × γ)) (l : List δ) (a : α) (x : δ) (b : γ) : Prop :=
  f x = some (a, b) ∧ ∃ before after, l = before ++ x :: after ∧ ∀ y ∈ after, ∀ b', f y ≠ some (a, b')

omit [DecidableEq α] in
theorem LastUnder.mem {f : δ → Option (α × γ)} {l : List δ} {a : α} {x : δ} {b : γ}
    (h : LastUnder f l a x b) : x ∈ l := by
  obtain ⟨_, before, after, rfl, _⟩ := h
  exact List.mem_append_right _ (List.mem_cons_self ..)

omit [DecidableEq α] in
/-- What is inserted at all is inserted a last time. -/
theorem exists_lastUnder {f : δ → Option (α × γ)} {a : α} : ∀ {l : List δ},
    (∃ x ∈ l, ∃ b, f x = some (a, b)) → ∃ x b, LastUnder f l a x b := by
  intro l
  induction l with
  | nil => rintro ⟨x, hx, _⟩; exact absurd hx List.not_mem_nil
  | cons y l ih =>
      rintro ⟨x, hx, b, hb⟩
      by_cases hlater : ∃ z ∈ l, ∃ b', f z = some (a, b')
      · obtain ⟨z, b', hz, before, after, rfl, hafter⟩ := ih hlater
        exact ⟨z, b', hz, y :: before, after, rfl, hafter⟩
      · rcases List.mem_cons.mp hx with rfl | hx
        · exact ⟨x, b, hb, [], l, rfl, fun z hz b' hb' => hlater ⟨z, hz, b', hb'⟩⟩
        · exact absurd ⟨x, hx, b, hb⟩ hlater

theorem lookup_insertAll_of_lastUnder {f : δ → Option (α × γ)} {l : List δ} {a : α} {x : δ} {b : γ}
    (h : LastUnder f l a x b) (s : AList fun _ : α => γ) : (insertAll f s l).lookup a = some b := by
  obtain ⟨hx, before, after, rfl, hafter⟩ := h
  simp only [insertAll, List.foldl_append, List.foldl_cons, hx]
  exact (lookup_insertAll_of_not after _ hafter).trans (lookup_insert _)

/-- **The last insertion wins.** -/
theorem lookup_insertAll_iff {f : δ → Option (α × γ)} {l : List δ} {a : α} {b : γ} :
    (insertAll f ∅ l).lookup a = some b ↔ ∃ x, LastUnder f l a x b := by
  constructor
  · intro h
    by_cases hex : ∃ x ∈ l, ∃ b, f x = some (a, b)
    · obtain ⟨x, b', hx⟩ := exists_lastUnder hex
      rw [lookup_insertAll_of_lastUnder hx, Option.some.injEq] at h
      exact ⟨x, h ▸ hx⟩
    · rw [lookup_insertAll_of_not l ∅ fun x hx b' hb' => hex ⟨x, hx, b', hb'⟩, lookup_empty] at h
      exact absurd h (by simp)
  · rintro ⟨x, hx⟩
    exact lookup_insertAll_of_lastUnder hx ∅

end AList
