import Mathlib.Data.List.Induction
import InfrixPlayground.Lib.AssocMap
import InfrixPlayground.Worker.Artifacts

/-!
# `Worker.HashLines` — which hash a step is given, and where it comes from

`stepHashes` keeps the short hex of every artifact it finds, whatever bytes it has: `lookup_stepHashes` gives the
whole map, key by key. A 32-byte array is never empty, so the guard against an empty hash does not stop the hash
of nothing, thirty-two zero bytes. `hashes_real_iff` says which packages are given no such hash.
-/

namespace InfrixPlayground

open Worker GoText

/-- A hash that is not zero throughout. -/
def Hash.Nonzero (h : Hash) : Prop := ∃ b ∈ h.toList, b ≠ 0

instance (h : Hash) : Decidable h.Nonzero := inferInstanceAs (Decidable (∃ b ∈ h.toList, b ≠ 0))

/-! ## The artifacts of a package -/

/-- The content hash of the last link of a type. -/
def Chain.lastOfType (chain : Chain) (type : String) : Option Hash :=
  ((chain.links.filter fun l => l.type = type).getLast?).map ChainLink.contentHash

/-- The artifact of a stage: the last link of the first of its types that occurs. -/
def Chain.stageHash (chain : Chain) (types : List String) : Option Hash := types.findSome? chain.lastOfType

namespace Worker

variable {X : Externals}

/-- The artifact hash a package has for a step key; there is none for the verdict, which is not stored. -/
def artifactHash (X : Externals) (pkg : X.Package) (key : String) : Option Hash :=
  if key = "export" then some (X.exportHash pkg)
  else (parsedChain X pkg).bind fun chain =>
    if key = "anchor" then some chain.chainHash else (stageTypes.lookup key).bind chain.stageHash

/-- The artifact hash, if it is one: a field that is missing decodes to zeros. -/
def suppliedHash (X : Externals) (pkg : X.Package) (key : String) : Option Hash :=
  (artifactHash X pkg key).filter fun h => decide h.Nonzero

/-! ## The map, key by key -/

/-- The short form of a hash. -/
def shortHash (h : Hash) : String := hexEncodeToString (h.toList.take 8)

/-- An array is not empty, so it has a short form. -/
theorem short_hash (h : Hash) : short h.toList = shortHash h := by
  have hlen : h.toList.length = 32 := h.toList_length
  rw [short, hlen]
  rfl

/-- **Sixteen hex digits.** -/
theorem shortHash_digits (h : Hash) :
    (shortHash h).toList.length = 16 ∧ ∀ c ∈ (shortHash h).toList, IsHexDigit c := by
  refine ⟨?_, fun c hc => isHexDigit_of_mem_encode hc⟩
  rw [shortHash, length_hexEncode, List.length_take, h.toList_length]
  rfl

theorem shortHash_ne_empty (h : Hash) : shortHash h ≠ "" := by
  intro he
  have hlen := (shortHash_digits h).1
  rw [he] at hlen
  exact absurd hlen (by decide)

/-- A hash line is a key's own, or one that was there. -/
theorem lookup_setHash (out : HashMap) (key key' h : String) :
    (setHash out key h).lookup key' = if key' = key ∧ h ≠ "" then some h else out.lookup key' := by
  unfold setHash
  by_cases hh : h = ""
  · simp [hh]
  · simp [hh, AList.lookup_insert_eq]

/-- A hash that may be missing is recorded if it is there. -/
theorem lookup_setHash_option (out : HashMap) (key key' : String) (o : Option Hash) :
    (setHash out key ((o.map shortHash).getD "")).lookup key'
      = if key' = key then (o.map shortHash).or (out.lookup key) else out.lookup key' := by
  rw [lookup_setHash]
  cases o with
  | none =>
      by_cases hk : key' = key
      · subst hk; simp
      · simp [hk]
  | some h => simp [shortHash_ne_empty h]

/-- **The links, by type**: a later link of a type replaces an earlier one. -/
theorem lookup_linksByType (chain : Chain) (type : String) :
    (linksByType chain.links).lookup type = (chain.lastOfType type).map shortHash := by
  unfold linksByType Chain.lastOfType
  induction chain.links using List.reverseRecOn with
  | nil => rfl
  | append_singleton links l ih =>
      rw [List.foldl_append, List.foldl_cons, List.foldl_nil, AList.lookup_insert_eq, List.filter_append]
      by_cases ht : type = l.type
      · simp [ht, short_hash]
      · rw [if_neg ht, ih]
        simp [Ne.symm ht]

/-- The hash of a stage. -/
theorem linkHash_eq (chain : Chain) (types : List String) :
    linkHash (linksByType chain.links) types = ((chain.stageHash types).map shortHash).getD "" := by
  unfold linkHash Chain.stageHash
  rw [List.map_findSome?]
  congr 2
  funext type
  exact lookup_linksByType chain type

/-- The stages of the chain, one after the other. -/
theorem lookup_stages (chain : Chain) : ∀ (stages : List (String × List String)) (out : HashMap),
    (stages.map Prod.fst).Nodup → ∀ key,
      (stages.foldl (fun out st => setHash out st.1 (linkHash (linksByType chain.links) st.2)) out).lookup key
        = (((stages.lookup key).bind chain.stageHash).map shortHash).or (out.lookup key) := by
  intro stages
  induction stages with
  | nil => intro out _ key; rfl
  | cons st stages ih =>
      intro out hnodup key
      obtain ⟨hnew, hrest⟩ := List.nodup_cons.mp hnodup
      rw [List.foldl_cons, ih _ hrest key, linkHash_eq, lookup_setHash_option, List.lookup_cons]
      by_cases hk : key = st.1
      · -- no later stage has the key
        have hnone : stages.lookup key = none := List.lookup_eq_none_iff.mpr fun st' hst' => by
          rw [bne_iff_ne]
          rintro rfl
          exact hnew (hk ▸ List.mem_map_of_mem hst')
        rw [if_pos hk, hnone, hk, beq_self_eq_true, Option.bind_none, Option.map_none, Option.none_or]
        rfl
      · rw [if_neg hk, beq_false_of_ne hk]

/-- **The whole map.** A key has a hash line exactly where the package has an artifact for it, and the line is
    that artifact's short form. -/
theorem lookup_stepHashes (pkg : X.Package) (key : String) :
    (stepHashes X pkg).lookup key = (artifactHash X pkg key).map shortHash := by
  have hexport : ∀ key', (setHash ∅ "export" (shortHash (X.exportHash pkg))).lookup key'
      = if key' = "export" then some (shortHash (X.exportHash pkg)) else none := by
    intro key'
    rw [lookup_setHash, AList.lookup_empty]
    by_cases hk : key' = "export"
    · rw [if_pos ⟨hk, shortHash_ne_empty _⟩, if_pos hk]
    · rw [if_neg fun h => hk h.1, if_neg hk]
  unfold stepHashes artifactHash parsedChain
  simp only [short_hash]
  cases X.unmarshalBundle (X.bundleData pkg) with
  | none =>
      rw [hexport]
      split <;> rfl
  | some bundle =>
      obtain ⟨chain⟩ := bundle
      rw [Option.bind_some]
      cases chain with
      | none =>
          dsimp only
          rw [hexport]
          split <;> rfl
      | some chain =>
          have hnodup : (stageTypes.map Prod.fst).Nodup := by decide
          dsimp only
          rw [lookup_setHash, lookup_stages chain stageTypes _ hnodup, hexport, Option.bind_some]
          by_cases hanchor : key = "anchor"
          · have hne : key ≠ "export" := by rw [hanchor]; decide
            rw [if_pos ⟨hanchor, shortHash_ne_empty _⟩, if_neg hne, if_pos hanchor]
            rfl
          · rw [if_neg fun h => hanchor h.1]
            by_cases hkey : key = "export"
            · have hstage : stageTypes.lookup key = none := by rw [hkey]; decide
              rw [if_pos hkey, if_pos hkey, hstage]
              rfl
            · rw [if_neg hkey, if_neg hkey, if_neg hanchor, Option.or_none]

/-! ## Real hashes -/

/-- What the hash lines say of themselves ("never a fake one"): a key has one exactly where the package supplies
    its artifact, and it is the first eight bytes of that artifact in lower-case hex. -/
structure HashesReal (X : Externals) (pkg : X.Package) : Prop where
  entry_iff : ∀ key, key ∈ stepHashes X pkg ↔ (suppliedHash X pkg key).isSome
  entry : ∀ key line, (stepHashes X pkg).lookup key = some line →
    ∃ h, suppliedHash X pkg key = some h ∧ line = hexEncodeToString (h.toList.take 8) ∧
      line.toList.length = 16 ∧ ∀ c ∈ line.toList, IsHexDigit c
  verify : "verify" ∉ stepHashes X pkg

/-- The verdict has no artifact. -/
theorem artifactHash_verify (pkg : X.Package) : artifactHash X pkg "verify" = none := by
  have hstage : stageTypes.lookup "verify" = none := by decide
  rw [artifactHash, if_neg (by decide)]
  cases parsedChain X pkg with
  | none => rfl
  | some chain => rw [Option.bind_some, if_neg (by decide), hstage]; rfl

/-- The hash lines are real exactly when no artifact they show is zero. -/
theorem hashesReal_iff_nonzero {pkg : X.Package} :
    HashesReal X pkg ↔ ∀ key h, artifactHash X pkg key = some h → h.Nonzero := by
  constructor
  · intro hreal key h hart
    have hmem : key ∈ stepHashes X pkg :=
      AList.mem_iff_lookup.mpr ⟨shortHash h, by rw [lookup_stepHashes, hart]; rfl⟩
    have hsupplied := (hreal.entry_iff key).mp hmem
    rw [suppliedHash, hart, Option.filter_some] at hsupplied
    split at hsupplied
    · rename_i hnz; exact of_decide_eq_true hnz
    · cases hsupplied
  · intro hnonzero
    have hsupplied : ∀ key, suppliedHash X pkg key = artifactHash X pkg key := by
      intro key
      unfold suppliedHash
      cases hart : artifactHash X pkg key with
      | none => rfl
      | some h => rw [Option.filter_some, if_pos (decide_eq_true (hnonzero key h hart))]
    refine ⟨fun key => ?_, fun key line hline => ?_, fun hmem => ?_⟩
    · rw [hsupplied, ← AList.lookup_isSome, lookup_stepHashes, Option.isSome_map]
    · rw [lookup_stepHashes] at hline
      obtain ⟨h, hart, rfl⟩ := Option.map_eq_some_iff.mp hline
      exact ⟨h, by rw [hsupplied, hart], rfl, shortHash_digits h⟩
    · obtain ⟨line, hline⟩ := AList.mem_iff_lookup.mp hmem
      rw [lookup_stepHashes, artifactHash_verify] at hline
      cases hline

/-- **When the hash lines are real**: exactly for the packages whose seal is not zero and, where the bundle data
    parses into a chain, whose chain digest is not zero and whose stages are mapped to no link with a zero
    content hash. -/
theorem hashes_real_iff (X : Externals) (pkg : X.Package) :
    HashesReal X pkg ↔ (X.exportHash pkg).Nonzero ∧ ∀ chain, parsedChain X pkg = some chain →
      chain.chainHash.Nonzero ∧ ∀ st ∈ stageTypes, ∀ h, chain.stageHash st.2 = some h → h.Nonzero := by
  rw [hashesReal_iff_nonzero]
  constructor
  · intro hnonzero
    refine ⟨hnonzero "export" _ (if_pos rfl), fun chain hchain => ⟨?_, fun st hst h hh => ?_⟩⟩
    · refine hnonzero "anchor" _ ?_
      rw [artifactHash, if_neg (by decide), hchain, Option.bind_some, if_pos rfl]
    · refine hnonzero st.1 h ?_
      have hkeys : ∀ st ∈ stageTypes, st.1 ≠ "export" ∧ st.1 ≠ "anchor" ∧
          stageTypes.lookup st.1 = some st.2 := by decide
      obtain ⟨hexport, hanchor, hlookup⟩ := hkeys st hst
      rw [artifactHash, if_neg hexport, hchain, Option.bind_some, if_neg hanchor, hlookup]
      exact hh
  · rintro ⟨hexport, hchains⟩ key h hart
    unfold artifactHash at hart
    split at hart
    · cases hart; exact hexport
    · obtain ⟨chain, hchain, hart⟩ := Option.bind_eq_some_iff.mp hart
      split at hart
      · cases hart; exact (hchains chain hchain).1
      · obtain ⟨types, htypes, hh⟩ := Option.bind_eq_some_iff.mp hart
        exact (hchains chain hchain).2 (key, types) (by
          obtain ⟨_, _, hsplit, _⟩ := List.lookup_eq_some_iff.mp htypes
          rw [hsplit]
          exact List.mem_append_right _ (List.mem_cons_self ..)) h hh

/-- A package without an export hash: the step says it has sealed the proof with sixteen zeros. -/
theorem hash_of_nothing_shown : ¬ HashesReal sampleX { exportHash := padHash [], bundleData := [0x7B, 0x7D] } ∧
    (stepHashes sampleX { exportHash := padHash [], bundleData := [0x7B, 0x7D] }).lookup "export"
      = some "0000000000000000" := by
  refine ⟨fun h => ?_, by decide +kernel⟩
  have hnonzero := ((hashes_real_iff sampleX _).mp h).1
  exact absurd hnonzero (by decide +kernel)

end Worker
end InfrixPlayground
