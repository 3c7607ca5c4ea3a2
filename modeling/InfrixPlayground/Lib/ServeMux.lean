import Mathlib.Data.List.Basic

/-!
# `Lib.ServeMux` — choosing among patterns by their segments

A pattern is a list of segments, each a literal or a wildcard, and stands for the paths with those segments
or, if it ends in a slash, for everything below. `matchPath` walks the tree of all patterns along a path: a
literal before a wildcard, a wildcard before what stands for everything below, and back where a branch leads
nowhere. What it returns captures the path, and it finds something whenever there is something
(`matchPath_sound`, `matchPath_isSome`). Where of any two patterns that share a path one is the more special, it
finds what trying the special ones first does, whatever the order in which they were put into the tree
(`matchPath_eq_first`).
-/

namespace ServeMux

/-! `wild` says which segments a wildcard stands for. -/

variable {β η : Type*} [DecidableEq β] (wild : β → Bool)

/-- A pattern; in its segments, `none` is a wildcard. -/
structure Pattern (β η : Type*) where
  segs : List (Option β)
  /-- The pattern ends in a slash. -/
  subtree : Bool
  handler : η
deriving DecidableEq

/-- The values a pattern's segments take along a path, if it stands for the path; `slash` says whether the
    path ends in a slash. -/
def captures : List (Option β) → Bool → List β → Bool → Option (List β)
  | [], false, [], false => some []
  | [], true, [], true => some []
  | [], true, _ :: _, _ => some []
  | some l :: ks, subtree, s :: ss, slash => if l = s then captures ks subtree ss slash else none
  | none :: ks, subtree, s :: ss, slash => if wild s then (captures ks subtree ss slash).map (s :: ·) else none
  | _, _, _, _ => none

def Pattern.captures (p : Pattern β η) (segs : List β) (slash : Bool) : Option (List β) :=
  ServeMux.captures wild p.segs p.subtree segs slash

/-- A pattern on the way down the tree, with the segments still to come. -/
structure Entry (β η : Type*) where
  rest : List (Option β)
  pattern : Pattern β η

/-- The entries below a child of a node. -/
def descend (k : Option β) (node : List (Entry β η)) : List (Entry β η) :=
  node.filterMap fun e =>
    match e.rest with
    | [] => none
    | k' :: ks => if k' = k then some { e with rest := ks } else none

/-- The pattern that ends at a node, with or without a slash. -/
def ending (subtree : Bool) (node : List (Entry β η)) : Option (Pattern β η × List β) :=
  (node.find? fun e => e.rest.isEmpty && e.pattern.subtree == subtree).map fun e => (e.pattern, [])

/-- The walk: the pattern it ends at, and the values of the wildcards it passed. -/
def walk : List (Entry β η) → List β → Bool → Option (Pattern β η × List β)
  | node, [], slash => ending slash node
  | node, s :: ss, slash =>
    (walk (descend (some s) node) ss slash).or
      ((if wild s then (walk (descend none node) ss slash).map fun m => (m.1, s :: m.2) else none).or
        (ending true node))

/-- The root of the tree. -/
def root (ps : List (Pattern β η)) : List (Entry β η) := ps.map fun p => ⟨p.segs, p⟩

def matchPath (ps : List (Pattern β η)) (segs : List β) (slash : Bool) : Option (Pattern β η × List β) :=
  walk wild (root ps) segs slash

/-! ## What the walk finds -/

theorem mem_descend {k : Option β} {node : List (Entry β η)} {e : Entry β η} :
    e ∈ descend k node ↔ ⟨k :: e.rest, e.pattern⟩ ∈ node := by
  rw [descend, List.mem_filterMap]
  constructor
  · rintro ⟨e', he', hsome⟩
    obtain ⟨rest, pattern⟩ := e'
    cases rest with
    | nil => cases hsome
    | cons k' ks =>
        dsimp only at hsome
        split at hsome
        · rename_i hk
          cases hsome
          exact hk ▸ he'
        · cases hsome
  · intro h
    exact ⟨_, h, if_pos rfl⟩

omit [DecidableEq β] in
theorem ending_sound {subtree : Bool} {node : List (Entry β η)} {p : Pattern β η} {vs : List β}
    (h : ending subtree node = some (p, vs)) : ⟨[], p⟩ ∈ node ∧ p.subtree = subtree ∧ vs = [] := by
  obtain ⟨⟨rest, pattern⟩, he, heq⟩ := Option.map_eq_some_iff.mp h
  cases heq
  have hends := List.find?_some he
  rw [Bool.and_eq_true, List.isEmpty_iff, beq_iff_eq] at hends
  obtain ⟨hrest, hsub⟩ := hends
  dsimp only at hrest
  subst hrest
  exact ⟨List.mem_of_find?_eq_some he, hsub, rfl⟩

omit [DecidableEq β] in
theorem ending_isSome {node : List (Entry β η)} {p : Pattern β η} (h : ⟨[], p⟩ ∈ node) :
    (ending p.subtree node).isSome = true := by
  rw [ending, Option.isSome_map]
  exact List.find?_isSome.mpr ⟨_, h, by simp⟩

/-- The three ways a walk goes on: by a literal, else by a wildcard, else to what stands for everything. -/
theorem walk_cases {node : List (Entry β η)} {s : β} {ss : List β} {slash : Bool} {p : Pattern β η} {vs : List β}
    (h : walk wild node (s :: ss) slash = some (p, vs)) :
    walk wild (descend (some s) node) ss slash = some (p, vs) ∨
    walk wild (descend (some s) node) ss slash = none ∧ wild s = true ∧
      (∃ vs', walk wild (descend none node) ss slash = some (p, vs') ∧ vs = s :: vs') ∨
    walk wild (descend (some s) node) ss slash = none ∧
      (wild s = true → walk wild (descend none node) ss slash = none) ∧ ending true node = some (p, vs) := by
  rw [walk, Option.or_eq_some_iff, Option.or_eq_some_iff] at h
  rcases h with h | ⟨hlit, h | ⟨hnone, h⟩⟩
  · exact .inl h
  · split at h
    · rename_i hwild
      obtain ⟨⟨p', vs'⟩, hwalk, heq⟩ := Option.map_eq_some_iff.mp h
      cases heq
      exact .inr (.inl ⟨hlit, hwild, vs', hwalk, rfl⟩)
    · cases h
  · refine .inr (.inr ⟨hlit, fun hwild => ?_, h⟩)
    rwa [if_pos hwild, Option.map_eq_none_iff] at hnone

/-- How a pattern's segments go along a path that they capture. -/
theorem captures_cons {rest : List (Option β)} {b : Bool} {s : β} {ss : List β} {slash : Bool}
    (h : (captures wild rest b (s :: ss) slash).isSome = true) :
    (∃ ks, rest = some s :: ks ∧ (captures wild ks b ss slash).isSome = true) ∨
    (∃ ks, rest = none :: ks ∧ wild s = true ∧ (captures wild ks b ss slash).isSome = true) ∨
    rest = [] ∧ b = true := by
  cases rest with
  | nil =>
      cases b with
      | false => cases h
      | true => exact .inr (.inr ⟨rfl, rfl⟩)
  | cons k ks =>
      cases k with
      | some l =>
          rw [captures] at h
          split at h
          · rename_i hl
            exact .inl ⟨ks, by rw [hl], h⟩
          · cases h
      | none =>
          rw [captures] at h
          split at h
          · rename_i hwild
            rw [Option.isSome_map] at h
            exact .inr (.inl ⟨ks, rfl, hwild, h⟩)
          · cases h

/-- At the end of a path, the pattern ends as the path does. -/
theorem captures_nil {rest : List (Option β)} {b slash : Bool} (h : (captures wild rest b [] slash).isSome = true) :
    rest = [] ∧ b = slash := by
  cases rest with
  | nil => cases b <;> cases slash <;> first | exact ⟨rfl, rfl⟩ | cases h
  | cons k ks => cases k <;> cases h

/-- Without a slash at its end, a pattern stands for no path with one. -/
theorem captures_below : ∀ (ks : List (Option β)) (segs : List β), captures wild ks false segs true = none
  | [], [] => rfl
  | [], _ :: _ => rfl
  | some l :: ks, [] => rfl
  | none :: ks, [] => rfl
  | some l :: ks, s :: ss => by rw [captures, captures_below ks ss, ite_self]
  | none :: ks, s :: ss => by rw [captures, captures_below ks ss, Option.map_none, ite_self]

/-- Literals capture themselves. -/
theorem captures_literals (ls : List β) (ks : List (Option β)) (subtree : Bool) (segs : List β) (slash : Bool) :
    captures wild (ls.map some ++ ks) subtree (ls ++ segs) slash = captures wild ks subtree segs slash := by
  induction ls with
  | nil => rfl
  | cons l ls ih => rw [List.map_cons, List.cons_append, List.cons_append, captures, if_pos rfl, ih]

/-- **What the walk finds captures the path.** -/
theorem walk_sound : ∀ {segs : List β} {node : List (Entry β η)} {slash : Bool} {p : Pattern β η} {vs : List β},
    walk wild node segs slash = some (p, vs) →
      ∃ rest, ⟨rest, p⟩ ∈ node ∧ captures wild rest p.subtree segs slash = some vs := by
  intro segs
  induction segs with
  | nil =>
      intro node slash p vs h
      obtain ⟨hmem, hsub, rfl⟩ := ending_sound h
      refine ⟨[], hmem, ?_⟩
      rw [hsub]
      cases slash <;> rfl
  | cons s ss ih =>
      intro node slash p vs h
      rcases walk_cases wild h with hwalk | ⟨_, hwild, vs', hwalk, rfl⟩ | ⟨_, _, hend⟩
      · obtain ⟨rest, hmem, hcap⟩ := ih hwalk
        exact ⟨_, mem_descend.mp hmem, by rw [captures, if_pos rfl, hcap]⟩
      · obtain ⟨rest, hmem, hcap⟩ := ih hwalk
        exact ⟨_, mem_descend.mp hmem, by rw [captures, if_pos hwild, hcap]; rfl⟩
      · obtain ⟨hmem, hsub, rfl⟩ := ending_sound hend
        refine ⟨[], hmem, ?_⟩
        rw [hsub]
        rfl

/-- **The walk finds something where there is something.** -/
theorem walk_isSome : ∀ {segs : List β} {node : List (Entry β η)} {slash : Bool} {rest : List (Option β)}
    {p : Pattern β η}, ⟨rest, p⟩ ∈ node → (captures wild rest p.subtree segs slash).isSome = true →
      (walk wild node segs slash).isSome = true := by
  intro segs
  induction segs with
  | nil =>
      intro node slash rest p hmem hcap
      obtain ⟨rfl, hsub⟩ := captures_nil wild hcap
      rw [walk, ← hsub]
      exact ending_isSome hmem
  | cons s ss ih =>
      intro node slash rest p hmem hcap
      rw [walk, Option.isSome_or, Option.isSome_or, Bool.or_eq_true, Bool.or_eq_true]
      rcases captures_cons wild hcap with ⟨ks, rfl, hks⟩ | ⟨ks, rfl, hwild, hks⟩ | ⟨rfl, hsub⟩
      · exact .inl (ih (mem_descend.mpr hmem) hks)
      · rw [if_pos hwild, Option.isSome_map]
        exact .inr (.inl (ih (mem_descend.mpr hmem) hks))
      · exact .inr (.inr (hsub ▸ ending_isSome hmem))

theorem matchPath_sound {ps : List (Pattern β η)} {segs : List β} {slash : Bool} {p : Pattern β η} {vs : List β}
    (h : matchPath wild ps segs slash = some (p, vs)) : p ∈ ps ∧ p.captures wild segs slash = some vs := by
  obtain ⟨rest, hmem, hcap⟩ := walk_sound wild h
  obtain ⟨p', hp', heq⟩ := List.mem_map.mp hmem
  cases heq
  exact ⟨hp', hcap⟩

theorem matchPath_isSome {ps : List (Pattern β η)} {segs : List β} {slash : Bool} {p : Pattern β η} (hp : p ∈ ps)
    (h : (p.captures wild segs slash).isSome = true) : (matchPath wild ps segs slash).isSome = true :=
  walk_isSome wild (List.mem_map.mpr ⟨p, hp, rfl⟩) h

/-! ## Special and general patterns -/

/-- A difference that no path gets over: two literals at one place, or two ends at different places. -/
def apart : List (Option β) → Bool → List (Option β) → Bool → Bool
  | [], false, [], true => true
  | [], true, [], false => true
  | [], false, _ :: _, _ => true
  | _ :: _, _, [], false => true
  | some l :: ks, b, some l' :: ks', b' => l ≠ l' || apart ks b ks' b'
  | none :: ks, b, _ :: ks', b' => apart ks b ks' b'
  | some _ :: ks, b, none :: ks', b' => apart ks b ks' b'
  | _, _, _, _ => false

def Pattern.apart (p q : Pattern β η) : Bool := ServeMux.apart p.segs p.subtree q.segs q.subtree

/-- The first stands for at least what the second does, segment by segment. -/
def covers : List (Option β) → Bool → List (Option β) → Bool → Bool
  | [], true, _, _ => true
  | [], false, [], false => true
  | some l :: ks, b, some l' :: ks', b' => l = l' && covers ks b ks' b'
  | none :: ks, b, none :: ks', b' => covers ks b ks' b'
  | none :: ks, b, some l :: ks', b' => wild l && covers ks b ks' b'
  | _, _, _, _ => false

def Pattern.covers (p q : Pattern β η) : Bool := ServeMux.covers wild p.segs p.subtree q.segs q.subtree

/-- **Patterns that are apart have no path in common.** -/
theorem not_both : ∀ {segs : List β} {ks ks' : List (Option β)} {b b' slash : Bool}, apart ks b ks' b' = true →
    (captures wild ks b segs slash).isSome = true → (captures wild ks' b' segs slash).isSome = false := by
  intro segs
  induction segs with
  | nil =>
      intro ks ks' b b' slash hapart hcap
      obtain ⟨rfl, rfl⟩ := captures_nil wild hcap
      rw [Bool.eq_false_iff]
      intro hcap'
      obtain ⟨rfl, rfl⟩ := captures_nil wild hcap'
      cases b' <;> cases hapart
  | cons s ss ih =>
      intro ks ks' b b' slash hapart hcap
      rw [Bool.eq_false_iff]
      intro hcap'
      -- the two patterns go along the first segment together
      rcases captures_cons wild hcap with ⟨ks, rfl, hks⟩ | ⟨ks, rfl, _, hks⟩ | ⟨rfl, rfl⟩ <;>
        rcases captures_cons wild hcap' with ⟨ks', rfl, hks'⟩ | ⟨ks', rfl, _, hks'⟩ | ⟨rfl, rfl⟩
      · rw [apart, Bool.or_eq_true, decide_eq_true_eq] at hapart
        rcases hapart with hne | hapart
        · exact absurd rfl hne
        · exact absurd (ih hapart hks) (by rw [hks']; nofun)
      · rw [apart] at hapart
        exact absurd (ih hapart hks) (by rw [hks']; nofun)
      · cases hapart
      · rw [apart] at hapart
        exact absurd (ih hapart hks) (by rw [hks']; nofun)
      · rw [apart] at hapart
        exact absurd (ih hapart hks) (by rw [hks']; nofun)
      · cases hapart
      · cases hapart
      · cases hapart
      · cases hapart

/-- **The walk prefers the special.** A pattern that captures the path too, and that the one found covers, covers
    it as well. -/
theorem walk_special : ∀ {segs : List β} {node : List (Entry β η)} {slash : Bool} {p q : Pattern β η} {vs : List β}
    {rest : List (Option β)}, walk wild node segs slash = some (p, vs) → ⟨rest, q⟩ ∈ node →
      (captures wild rest q.subtree segs slash).isSome = true →
      ∃ rest', ⟨rest', p⟩ ∈ node ∧ (captures wild rest' p.subtree segs slash).isSome = true ∧
        (covers wild rest' p.subtree rest q.subtree = true → covers wild rest q.subtree rest' p.subtree = true) := by
  intro segs
  induction segs with
  | nil =>
      intro node slash p q vs rest h hq hcap
      obtain ⟨hmem, hsub, rfl⟩ := ending_sound h
      obtain ⟨rfl, hsub'⟩ := captures_nil wild hcap
      refine ⟨[], hmem, ?_, ?_⟩
      · rw [hsub]
        cases slash <;> rfl
      · rw [hsub, hsub']
        cases slash <;> exact fun _ => rfl
  | cons s ss ih =>
      intro node slash p q vs rest h hq hcap
      rcases walk_cases wild h with hwalk | ⟨hlit, hwild, vs', hwalk, rfl⟩ | ⟨hlit, hnone, hend⟩
      · rcases captures_cons wild hcap with ⟨ks, rfl, hks⟩ | ⟨ks, rfl, _, hks⟩ | ⟨rfl, _⟩
        · obtain ⟨rest', hmem, hcap', hcov⟩ := ih hwalk (mem_descend.mpr hq) hks
          refine ⟨_, mem_descend.mp hmem, by rw [captures, if_pos rfl]; exact hcap', ?_⟩
          rw [covers, covers, Bool.and_eq_true, Bool.and_eq_true]
          exact fun h => ⟨decide_eq_true rfl, hcov h.2⟩
        -- a literal covers neither a wildcard nor a whole tree
        · obtain ⟨rest', hmem, hcap'⟩ := walk_sound wild hwalk
          exact ⟨_, mem_descend.mp hmem, by rw [captures, if_pos rfl, hcap']; rfl, nofun⟩
        · obtain ⟨rest', hmem, hcap'⟩ := walk_sound wild hwalk
          exact ⟨_, mem_descend.mp hmem, by rw [captures, if_pos rfl, hcap']; rfl, nofun⟩
      · rcases captures_cons wild hcap with ⟨ks, rfl, hks⟩ | ⟨ks, rfl, _, hks⟩ | ⟨rfl, _⟩
        · exact absurd (walk_isSome wild (mem_descend.mpr hq) hks) (by rw [hlit]; nofun)
        · obtain ⟨rest', hmem, hcap', hcov⟩ := ih hwalk (mem_descend.mpr hq) hks
          exact ⟨_, mem_descend.mp hmem, by rw [captures, if_pos hwild, Option.isSome_map]; exact hcap', hcov⟩
        · obtain ⟨rest', hmem, hcap'⟩ := walk_sound wild hwalk
          exact ⟨_, mem_descend.mp hmem, by rw [captures, if_pos hwild, hcap']; rfl, nofun⟩
      · obtain ⟨hmem, hsub, rfl⟩ := ending_sound hend
        refine ⟨[], hmem, by rw [hsub]; rfl, ?_⟩
        rcases captures_cons wild hcap with ⟨ks, rfl, hks⟩ | ⟨ks, rfl, hwild, hks⟩ | ⟨rfl, hsub'⟩
        · exact absurd (walk_isSome wild (mem_descend.mpr hq) hks) (by rw [hlit]; nofun)
        · exact absurd (walk_isSome wild (mem_descend.mpr hq) hks) (by rw [hnone hwild]; nofun)
        · rw [hsub, hsub']
          exact id

/-- Patterns in an order in which none comes before a more special one. Any two are apart, or the later covers the
    earlier and not the other way around: so putting them into one tree leaves no conflict. -/
def Ordered (ps : List (Pattern β η)) : Prop :=
  ps.Pairwise fun p q => p.apart q = true ∨ q.covers wild p = true ∧ p.covers wild q = false

instance (ps : List (Pattern β η)) : Decidable (Ordered wild ps) :=
  inferInstanceAs (Decidable (ps.Pairwise fun p q => p.apart q = true ∨ q.covers wild p = true ∧ p.covers wild q = false))

/-- The first of the patterns that captures a path. -/
def firstMatch (ps : List (Pattern β η)) (segs : List β) (slash : Bool) : Option (Pattern β η × List β) :=
  ps.findSome? fun p => (p.captures wild segs slash).map fun vs => (p, vs)

/-- A pattern is the first to capture a path if it is apart from those before it. -/
theorem firstMatch_at {ps : List (Pattern β η)} {n : Nat} {p : Pattern β η} {segs : List β} {slash : Bool} {vs : List β}
    (hp : ps[n]? = some p) (hapart : ∀ q ∈ ps.take n, q.apart p = true) (hcap : p.captures wild segs slash = some vs) :
    firstMatch wild ps segs slash = some (p, vs) := by
  obtain ⟨hn, hget⟩ := List.getElem?_eq_some_iff.mp hp
  have hsplit : ps = ps.take n ++ p :: ps.drop (n + 1) := by
    rw [← hget, ← List.drop_eq_getElem_cons hn, List.take_append_drop]
  rw [firstMatch, hsplit, List.findSome?_append, List.findSome?_eq_none_iff.mpr, List.findSome?_cons, hcap]
  · rfl
  · intro q hq
    cases hqcap : q.captures wild segs slash with
    | none => rfl
    | some ws =>
        have hnot := not_both wild (hapart q hq) (Option.isSome_of_eq_some hqcap)
        rw [Pattern.captures] at hcap
        rw [hcap] at hnot
        cases hnot

/-- **The walk finds what trying the patterns one by one does**, in whatever order they were registered. -/
theorem matchPath_eq_first {ps qs : List (Pattern β η)} (hord : Ordered wild ps) (hperm : qs.Perm ps)
    (segs : List β) (slash : Bool) : matchPath wild qs segs slash = firstMatch wild ps segs slash := by
  cases hfirst : firstMatch wild ps segs slash with
  | none =>
      rw [firstMatch, List.findSome?_eq_none_iff] at hfirst
      cases hfound : matchPath wild qs segs slash with
      | none => rfl
      | some m =>
          obtain ⟨hmem, hcap⟩ := matchPath_sound wild hfound
          have hnone := hfirst _ (hperm.mem_iff.mp hmem)
          rw [hcap] at hnone
          cases hnone
  | some m =>
      obtain ⟨l₁, p, l₂, rfl, hp, hbefore⟩ := List.findSome?_eq_some_iff.mp hfirst
      obtain ⟨vs, hcap, rfl⟩ := Option.map_eq_some_iff.mp hp
      have hsome : (p.captures wild segs slash).isSome = true := by rw [hcap]; rfl
      have hmem : p ∈ qs := hperm.mem_iff.mpr (List.mem_append_right _ List.mem_cons_self)
      obtain ⟨⟨q, vs'⟩, hfound⟩ := Option.isSome_iff_exists.mp (matchPath_isSome wild hmem hsome)
      obtain ⟨hq, hqcap⟩ := matchPath_sound wild hfound
      have hqsome : (q.captures wild segs slash).isSome = true := by rw [hqcap]; rfl
      rcases List.mem_append.mp (hperm.mem_iff.mp hq) with hq₁ | hq₂
      · have hnone := hbefore q hq₁
        rw [hqcap] at hnone
        cases hnone
      · rcases List.mem_cons.mp hq₂ with rfl | hq₂
        · rw [hcap] at hqcap
          rw [hfound, Option.some.inj hqcap]
        -- the pattern found comes after the first one: they share the path, so it covers the first, and is not preferred
        · rcases List.rel_of_pairwise_cons (List.pairwise_append.mp hord).2.1 hq₂ with hapart | ⟨hcov, hnot⟩
          · exact absurd hqsome (Bool.eq_false_iff.mp (not_both wild hapart hsome))
          · obtain ⟨rest, hentry, _, hspecial⟩ :=
              walk_special wild hfound (List.mem_map.mpr ⟨p, hmem, rfl⟩) hsome
            obtain ⟨_, _, heq⟩ := List.mem_map.mp hentry
            cases heq
            exact absurd (hspecial hcov) (Bool.eq_false_iff.mp hnot)

end ServeMux
