import InfrixPlayground.Lib.JsValue

/-!
# `Web.Tamper` — the forgeries of the Tamper Lab

A forgery edits a clone of a package in one place; a sophisticated one then seals it again, with the hasher
the verifier uses. `forgery_tiers`: a sealed package stays sealed through a forgery that re-seals, and
through the naive one exactly if what the hasher takes of each covered field is as it was; neither touches
another top-level field.
-/

namespace InfrixPlayground
namespace Web

open Js Json

/-! ## The package -/

/-- `JSON.parse(JSON.stringify(pkg))`. -/
def clone (pkg : Json) : Except String Json :=
  match parse pkg.print with
  | some v => .ok v
  | none => .error "SyntaxError"

/-- Parse, edit and put back the bundle, whether it is inlined or a JSON string. -/
def withBundle (pkg : Json) (fn : Json → Except String Json) : Except String Json := do
  match ← get "bundleData" (some pkg) with
  | some (.str s) =>
    match parse s.toList with
    | none => .error "SyntaxError"
    | some bd => do
      let bd ← fn bd
      assign "bundleData" (.str (String.ofList bd.print)) pkg
  | some bd => do
    let bd ← fn bd
    assign "bundleData" bd pkg
  -- every `fn` begins by reading a property of the bundle
  | none => .error "TypeError"

/-- `const a = approvals(bd)[0]; if (a) …`, the approvals under either of their names. -/
def editApproval (f : Json → Except String Json) (bd : Json) : Except String Json := do
  let approvalEvidence ← get "approvalEvidence" (some bd)
  if truthy approvalEvidence then editProp "approvalEvidence" (editFirst f) bd
  else if truthy (prop "ApprovalEvidence" bd) then editProp "ApprovalEvidence" (editFirst f) bd
  else .ok bd

/-- Invert the first byte of an array. -/
def flipFirst : List Json → List Json
  | [] => []
  | b :: bs => flipByte b :: bs

/-- `if (Array.isArray(v.k)) v.k = flipFirst(v.k)`. -/
def flipAt (k : String) (v : Json) : Except String Json := do
  match ← get k (some v) with
  | some (.arr bs) => assign k (.arr (flipFirst bs)) v
  | _ => .ok v

/-- `const x = (p.k || [])[0]; if (x) …`. -/
def editList (k : String) (f : Json → Except String Json) (p : Json) : Except String Json := do
  let list ← get k (some p)
  if truthy list then editProp k (editFirst f) p else .ok p

/-- What is done to the link of an inclusion proof. -/
def flipContentHash (link : Json) : Except String Json :=
  if truthy (some link) then flipAt "contentHash" link else .ok link

/-- What is done to a bundle whose first policy decision is to go. -/
def dropPolicy (bd : Json) : Except String Json := do
  match ← get "policyDecisions" (some bd) with
  | some (.arr (_ :: rest)) => assign "policyDecisions" (.arr rest) bd
  | _ => .ok bd

/-! ## The forgeries -/

structure Forgery where
  id : String
  label : String
  blurb : String
  reseal : Bool
  mutate : Json → Except String Json

def approver : Forgery where
  id := "approver"
  label := "Rename the approver"
  blurb := "Swap the approving identity — without re-sealing. The export hash catches it instantly."
  reseal := false
  mutate := fun p => withBundle p (editApproval (assign "identity" (.str "acc://attacker.evil/admin")))

def planhash : Forgery where
  id := "planhash"
  label := "Break plan ↔ approval"
  blurb := "Re-seal the export hash, but point the approval at a different plan. The binding still catches it."
  reseal := true
  mutate := fun p => withBundle p (editApproval (flipAt "planHash"))

def outcome : Forgery where
  id := "outcome"
  label := "Rewrite the outcome"
  blurb := "Re-seal, but change the committed outcome digest. It no longer matches the bundle."
  reseal := true
  mutate := flipAt "outcomeDigest"

def chainhash : Forgery where
  id := "chainhash"
  label := "Swap a chain hash"
  blurb := "Re-seal, but tamper with one Merkle inclusion proof. The root no longer reconstructs."
  reseal := true
  mutate := editList "inclusionProofs" (editProp "link" flipContentHash)

def policy : Forgery where
  id := "policy"
  label := "Drop a policy decision"
  blurb := "Re-seal, but delete a recorded policy decision. The policy digest no longer matches."
  reseal := true
  mutate := fun p => withBundle p dropPolicy

def trust : Forgery where
  id := "trust"
  label := "Forge a trust snapshot"
  blurb := "Re-seal, but zero a trust snapshot’s block height. A snapshot must be captured at a real block."
  reseal := true
  mutate := editList "trustSnapshot" (assign "blockHeight" (.num .zero))

def plugin : Forgery where
  id := "plugin"
  label := "Hide a plugin version"
  blurb := "Re-seal, but blank a plugin’s implementation hash. Every plugin must be fully identified."
  reseal := true
  mutate := editList "pluginVersions" (assign "implementationHash" (.str ""))

def FORGERIES : List Forgery := [approver, planhash, outcome, chainhash, policy, trust, plugin]

/-- Clone the package, apply the named forgery and, if it re-seals, seal it again. -/
def applyForgery (pkg : Json) (id : String) (reseal : Option (Json → Except String Json)) :
    Except String (Json × Forgery) :=
  match FORGERIES.find? fun f => f.id == id with
  | none => .error ("unknown forgery " ++ id)
  | some forgery => do
    let p ← forgery.mutate (← clone pkg)
    if forgery.reseal then
      match reseal with
      | none => .error ("forgery \"" ++ id ++ "\" requires a reseal function")
      | some reseal => do .ok ((← reseal p), forgery)
    else .ok (p, forgery)

/-! ## The seal -/

/-- The hasher that is injected, from a library that is not part of the repository. -/
structure Canon where
  coerce32 : Value → Except String (List UInt8)
  canonicalJSONSha256 : Json → List UInt8

/-- A bundle or a capsule as the hasher takes it. -/
def bundleDataAsCanonicalValue : Value → Json
  | none => .null
  | some .null => .null
  | some (.str s) => (parse s.toList).getD (.str s)
  | some bd => bd

/-- `Number(v || 0)`; JSON has no other way to write what is no finite number than `null`. -/
def numberOrZero (v : Value) : Json :=
  match (or v (some (.num .zero))).bind toNumber with
  | some n => .num n
  | none => .null

variable (canon : Canon)

def arrayifyHash (v : Value) : Except String Value := do .ok (some (bytes (← canon.coerce32 v)))

/-- What the seal covers, each field with what is made of it first. -/
def sealFields : List (String × (Value → Except String Value)) :=
  [ ("version", fun v => .ok v),
    ("bundleData", fun v => .ok (some (bundleDataAsCanonicalValue v))),
    ("planHash", arrayifyHash canon),
    ("outcomeDigest", arrayifyHash canon),
    ("trustSnapshot", fun v => .ok (or v (some .null))),
    ("inclusionProofs", fun v => .ok (or v (some .null))),
    ("anchorProof", fun v => .ok (or v (some .null))),
    ("anchorTxHash", fun v => .ok (or v (some (.str "")))),
    ("anchorBlockHeight", fun v => .ok (some (numberOrZero v))),
    ("pluginVersions", fun v => .ok (or v (some .null))),
    ("policyDecisionDigest", arrayifyHash canon),
    ("replayCapsule", fun v => .ok (some (bundleDataAsCanonicalValue v))) ]

/-- Read the fields of a package for the hasher. -/
def cover (pkg : Json) : List (String × (Value → Except String Value)) →
    Except String (List (String × Value))
  | [] => .ok []
  | (k, treat) :: rest => do
    let v ← treat (← get k (some pkg))
    .ok ((k, v) :: (← cover pkg rest))

/-- `reseal`, once it is made of the hasher. -/
def makeReseal (pkg : Json) : Except String Json := do
  let intermediate ← cover pkg (sealFields canon)
  assign "exportHash" (bytes (canon.canonicalJSONSha256 (ofFields intermediate))) pkg

/-- The export hash is the one `reseal` would store. -/
def Sealed (pkg : Json) : Prop :=
  ∃ intermediate, cover pkg (sealFields canon) = .ok intermediate ∧
    prop "exportHash" pkg = some (bytes (canon.canonicalJSONSha256 (ofFields intermediate)))

/-! ## What an edit leaves alone -/

theorem clone_eq {pkg : Json} (h : Wf pkg) : clone pkg = .ok pkg := by
  rw [clone, parse_print h]

/-- A naive forgery returns what it edited. -/
theorem applyForgery_naive {f : Forgery} (hf : FORGERIES.find? (fun g => g.id == f.id) = some f)
    (hreseal : f.reseal = false) {pkg p : Json} (hwf : Wf pkg) (hp : f.mutate pkg = .ok p)
    (reseal : Option (Json → Except String Json)) : applyForgery pkg f.id reseal = .ok (p, f) := by
  rw [applyForgery, hf]
  simp only [clone_eq hwf, ok_bind, hp, hreseal, Bool.false_eq_true, if_false]

/-- A sophisticated one returns it sealed again. -/
theorem applyForgery_resealed {f : Forgery} (hf : FORGERIES.find? (fun g => g.id == f.id) = some f)
    (hreseal : f.reseal = true) {pkg p p' : Json} (hwf : Wf pkg) (hp : f.mutate pkg = .ok p)
    {reseal : Json → Except String Json} (hp' : reseal p = .ok p') :
    applyForgery pkg f.id (some reseal) = .ok (p', f) := by
  rw [applyForgery, hf]
  simp only [clone_eq hwf, ok_bind, hp, hreseal, if_true, hp']

/-- The edit makes an object of an object and touches no member but `k`. -/
def EditsOnly (k : String) (f : Json → Except String Json) : Prop :=
  ∀ ms p', Wf (.obj ms) → f (.obj ms) = .ok p' →
    ∃ ms', p' = .obj ms' ∧ Wf p' ∧ ∀ k', k' ≠ k → Members.get k' ms' = Members.get k' ms

theorem editsOnly_set {ms : List (String × Json)} (hwf : Wf (.obj ms)) {k : String} {v : Json}
    (hv : Wf v) : ∃ ms', Json.obj (Members.set k v ms) = .obj ms' ∧ Wf (.obj (Members.set k v ms)) ∧
      ∀ k', k' ≠ k → Members.get k' ms' = Members.get k' ms :=
  ⟨_, rfl, wf_set hwf k hv, fun _ h => Members.get_set_ne h v ms⟩

theorem editsOnly_withBundle {fn : Json → Except String Json} (hfn : Keeps fn) :
    EditsOnly "bundleData" fun p => withBundle p fn := by
  intro ms p' hwf h
  simp only [withBundle, get_obj] at h
  obtain ⟨v, hv, h⟩ := bind_eq_ok.mp h
  cases hv
  split at h
  · split at h
    · exact absurd h (by simp)
    · rename_i bd hbd
      obtain ⟨bd', _, h⟩ := bind_eq_ok.mp h
      cases h
      exact editsOnly_set hwf (.str _)
  · rename_i bd _ hbd
    obtain ⟨bd', hbd', h⟩ := bind_eq_ok.mp h
    cases h
    exact editsOnly_set hwf (hfn bd bd' (wf_get hwf hbd) hbd')
  · exact absurd h (by simp)

theorem wf_flipFirst {bs : List Json} (h : Wf (.arr bs)) : Wf (.arr (flipFirst bs)) := by
  cases h with
  | arr h =>
      cases bs with
      | nil => exact .arr h
      | cons b bs =>
          exact .arr (List.forall_mem_cons.mpr ⟨.num _, (List.forall_mem_cons.mp h).2⟩)

theorem keeps_flipAt (k : String) : Keeps (flipAt k) := by
  intro v v' hv h
  unfold flipAt at h
  obtain ⟨w, hw, h⟩ := bind_eq_ok.mp h
  split at h
  · obtain ⟨ms, rfl⟩ := obj_of_get hw
    exact keeps_assign k (wf_flipFirst (wf_get hv (Except.ok.inj hw))) _ v' hv h
  · cases h; exact hv

theorem editsOnly_flipAt (k : String) : EditsOnly k (flipAt k) := by
  intro ms p' hwf h
  have hp' := keeps_flipAt k _ _ hwf h
  simp only [flipAt, get_obj] at h
  obtain ⟨v, hv, h⟩ := bind_eq_ok.mp h
  cases hv
  split at h
  · cases h; exact ⟨_, rfl, hp', fun _ hk => Members.get_set_ne hk _ ms⟩
  · cases h; exact ⟨_, rfl, hp', fun _ _ => rfl⟩

theorem editsOnly_editList {f : Json → Except String Json} (hf : Keeps f) (k : String) :
    EditsOnly k (editList k f) := by
  intro ms p' hwf h
  simp only [editList, get_obj] at h
  obtain ⟨v, hv, h⟩ := bind_eq_ok.mp h
  cases hv
  split at h
  · have hp' := hf.editFirst.editProp k _ _ hwf h
    simp only [editProp] at h
    split at h
    · cases h; exact ⟨_, rfl, hp', fun _ _ => rfl⟩
    · obtain ⟨w, _, h⟩ := bind_eq_ok.mp h
      cases h; exact ⟨_, rfl, hp', fun _ hk => Members.get_set_ne hk _ ms⟩
  · cases h; exact ⟨_, rfl, hwf, fun _ _ => rfl⟩

theorem keeps_editApproval {f : Json → Except String Json} (hf : Keeps f) : Keeps (editApproval f) := by
  intro v v' hv h
  unfold editApproval at h
  obtain ⟨w, _, h⟩ := bind_eq_ok.mp h
  split at h
  · exact hf.editFirst.editProp _ _ _ hv h
  split at h
  · exact hf.editFirst.editProp _ _ _ hv h
  · cases h; exact hv

theorem keeps_flipContentHash : Keeps flipContentHash := by
  intro v v' hv h
  unfold flipContentHash at h
  split at h
  · exact keeps_flipAt _ v v' hv h
  · cases h; exact hv

theorem keeps_dropPolicy : Keeps dropPolicy := by
  intro v v' hv h
  unfold dropPolicy at h
  obtain ⟨w, hw, h⟩ := bind_eq_ok.mp h
  split at h
  · rename_i x rest
    refine keeps_assign _ ?_ v v' hv h
    obtain ⟨ms, rfl⟩ := obj_of_get hw
    cases wf_get hv (Except.ok.inj hw) with
    | arr hall => exact .arr (List.forall_mem_cons.mp hall).2
  · cases h; exact hv

/-- The top-level field a forgery edits. -/
def Forgery.field (f : Forgery) : String :=
  if f.id = "outcome" then "outcomeDigest"
  else if f.id = "chainhash" then "inclusionProofs"
  else if f.id = "trust" then "trustSnapshot"
  else if f.id = "plugin" then "pluginVersions"
  else "bundleData"

theorem field_ne_exportHash {f : Forgery} (hf : f ∈ FORGERIES) : "exportHash" ≠ f.field := by
  simp only [FORGERIES, List.mem_cons, List.not_mem_nil, or_false] at hf
  rcases hf with rfl | rfl | rfl | rfl | rfl | rfl | rfl <;> decide

/-- **A forgery edits the one field it is about.** -/
theorem editsOnly_mutate {f : Forgery} (hf : f ∈ FORGERIES) : EditsOnly f.field f.mutate := by
  simp only [FORGERIES, List.mem_cons, List.not_mem_nil, or_false] at hf
  rcases hf with rfl | rfl | rfl | rfl | rfl | rfl | rfl
  · exact editsOnly_withBundle (keeps_editApproval (keeps_assign _ (.str _)))
  · exact editsOnly_withBundle (keeps_editApproval (keeps_flipAt _))
  · exact editsOnly_flipAt _
  · exact editsOnly_editList (keeps_flipContentHash.editProp _) _
  · exact editsOnly_withBundle keeps_dropPolicy
  · exact editsOnly_editList (keeps_assign _ (.num _)) _
  · exact editsOnly_editList (keeps_assign _ (.str _)) _

/-! ## What the seal covers -/

variable {canon : Canon}

/-- The same values under the covered names make the same seal. -/
theorem cover_congr {ms ms' : List (String × Json)} :
    ∀ {fields : List (String × (Value → Except String Value))},
      (∀ f ∈ fields, f.2 (Members.get f.1 ms') = f.2 (Members.get f.1 ms)) →
        cover (.obj ms') fields = cover (.obj ms) fields := by
  intro fields
  induction fields with
  | nil => intro _; rfl
  | cons f fields ih =>
      intro h
      obtain ⟨hf, hfields⟩ := List.forall_mem_cons.mp h
      simp only [cover, get_obj, ih hfields]
      show (f.2 (Members.get f.1 ms') >>= _) = (f.2 (Members.get f.1 ms) >>= _)
      rw [hf]

/-- What the seal reads: each name with what was made of its value. -/
theorem cover_fields {ms : List (String × Json)} :
    ∀ {fields : List (String × (Value → Except String Value))} {fs : List (String × Value)},
      cover (.obj ms) fields = .ok fs → fs.map Prod.fst = fields.map Prod.fst ∧
        ∀ f ∈ fields, ∃ v, f.2 (Members.get f.1 ms) = .ok v ∧ (f.1, v) ∈ fs := by
  intro fields
  induction fields with
  | nil => intro fs h; cases h; exact ⟨rfl, fun f hf => absurd hf List.not_mem_nil⟩
  | cons f fields ih =>
      intro fs h
      obtain ⟨k, treat⟩ := f
      rw [cover] at h
      obtain ⟨w, hw, htreat⟩ := bind_eq_ok.mp h
      obtain ⟨v, hv, hcover⟩ := bind_eq_ok.mp htreat
      obtain ⟨fs', hfs', hfs⟩ := bind_eq_ok.mp hcover
      cases hw
      cases hfs
      obtain ⟨hnames, hvalues⟩ := ih hfs'
      refine ⟨by rw [List.map_cons, List.map_cons, hnames], ?_⟩
      refine List.forall_mem_cons.mpr ⟨⟨v, hv, List.mem_cons_self⟩, fun f' hf' => ?_⟩
      obtain ⟨v', hv', hmem⟩ := hvalues f' hf'
      exact ⟨v', hv', List.mem_cons_of_mem _ hmem⟩

/-- The names of the covered fields. -/
def sealNames : List String :=
  ["version", "bundleData", "planHash", "outcomeDigest", "trustSnapshot", "inclusionProofs", "anchorProof",
    "anchorTxHash", "anchorBlockHeight", "pluginVersions", "policyDecisionDigest", "replayCapsule"]

theorem map_fst_sealFields : (sealFields canon).map Prod.fst = sealNames := rfl

/-- The export hash is not among what it seals. -/
theorem ne_exportHash {f : String × (Value → Except String Value)} (hf : f ∈ sealFields canon) :
    f.1 ≠ "exportHash" := by
  have hnames : ∀ k ∈ sealNames, k ≠ "exportHash" := by decide
  exact hnames f.1 (map_fst_sealFields ▸ List.mem_map_of_mem hf)

/-- Undefined, or a JSON value. -/
def WfValue (v : Value) : Prop := ∀ w, v = some w → Wf w

theorem wfValue_or {a b : Value} (ha : WfValue a) (hb : WfValue b) : WfValue (or a b) := by
  unfold Js.or
  split
  · exact ha
  · exact hb

theorem wfValue_some {v : Json} (h : Wf v) : WfValue (some v) := by
  intro w hw; cases hw; exact h

theorem wf_canonicalValue {v : Value} (h : WfValue v) : Wf (bundleDataAsCanonicalValue v) := by
  unfold bundleDataAsCanonicalValue
  split
  · exact .null
  · exact .null
  · rename_i s
    cases hp : parse s.toList with
    | none => exact .str s
    | some bd => exact parse_wf hp
  · exact h _ rfl

theorem wf_numberOrZero (v : Value) : Wf (numberOrZero v) := by
  unfold numberOrZero
  split
  · exact .num _
  · exact .null

theorem wfValue_arrayifyHash {v w : Value} (h : arrayifyHash canon v = .ok w) : WfValue w := by
  obtain ⟨h32, _, h⟩ := bind_eq_ok.mp h
  cases h
  exact wfValue_some (wf_bytes h32)

/-- Whatever is made of a covered field is a value again. -/
theorem wfValue_treat {f : String × (Value → Except String Value)} (hf : f ∈ sealFields canon)
    {v w : Value} (hv : WfValue v) (h : f.2 v = .ok w) : WfValue w := by
  simp only [sealFields, List.mem_cons, List.not_mem_nil, or_false] at hf
  rcases hf with rfl | rfl | rfl | rfl | rfl | rfl | rfl | rfl | rfl | rfl | rfl | rfl
  · cases h; exact hv
  · cases h; exact wfValue_some (wf_canonicalValue hv)
  · exact wfValue_arrayifyHash h
  · exact wfValue_arrayifyHash h
  · cases h; exact wfValue_or hv (wfValue_some .null)
  · cases h; exact wfValue_or hv (wfValue_some .null)
  · cases h; exact wfValue_or hv (wfValue_some .null)
  · cases h; exact wfValue_or hv (wfValue_some (.str ""))
  · cases h; exact wfValue_some (wf_numberOrZero v)
  · cases h; exact wfValue_or hv (wfValue_some .null)
  · exact wfValue_arrayifyHash h
  · cases h; exact wfValue_some (wf_canonicalValue hv)

/-- What the hasher is given is a JSON value. -/
theorem wf_cover {ms : List (String × Json)} (hwf : Wf (.obj ms)) {fs : List (String × Value)}
    (h : cover (.obj ms) (sealFields canon) = .ok fs) : Wf (ofFields fs) := by
  obtain ⟨hnames, hvalues⟩ := cover_fields h
  rw [map_fst_sealFields] at hnames
  have hnodup : (fs.map Prod.fst).Nodup := by rw [hnames]; decide
  refine .obj (Members.sorted_ofList _) fun m hm => ?_
  have hm := mem_fields.mp (Members.mem_ofList hm)
  -- the member was made of the value of one of the covered fields
  have hname : m.1 ∈ (sealFields canon).map Prod.fst := by
    rw [map_fst_sealFields, ← hnames]; exact List.mem_map_of_mem hm
  obtain ⟨f, hf, hname⟩ := List.mem_map.mp hname
  obtain ⟨v, hv, hmem⟩ := hvalues f hf
  rw [hname] at hmem
  have hsame : (m.1, v) = (m.1, some m.2) := List.inj_on_of_nodup_map hnodup hmem hm rfl
  rw [(Prod.mk.inj hsame).2] at hv
  exact wfValue_treat hf (fun w hw => wf_get hwf hw) hv m.2 rfl

/-- **Two packages with one seal** have the same under every covered name. -/
theorem covered_of_seal (hinj : ∀ v w, Wf v → Wf w →
    canon.canonicalJSONSha256 v = canon.canonicalJSONSha256 w → v = w) {ms ms' : List (String × Json)}
    (hwf : Wf (.obj ms)) (hwf' : Wf (.obj ms')) {fs fs' : List (String × Value)}
    (h : cover (.obj ms) (sealFields canon) = .ok fs) (h' : cover (.obj ms') (sealFields canon) = .ok fs')
    (hseal : canon.canonicalJSONSha256 (ofFields fs) = canon.canonicalJSONSha256 (ofFields fs')) :
    ∀ f ∈ sealFields canon, f.2 (Members.get f.1 ms') = f.2 (Members.get f.1 ms) := by
  intro f hf
  have heq := hinj _ _ (wf_cover hwf h) (wf_cover hwf' h') hseal
  rw [ofFields, ofFields, Json.obj.injEq] at heq
  obtain ⟨hnames, hvalues⟩ := cover_fields h
  obtain ⟨hnames', hvalues'⟩ := cover_fields h'
  rw [map_fst_sealFields] at hnames hnames'
  obtain ⟨v, hv, hmem⟩ := hvalues f hf
  obtain ⟨v', hv', hmem'⟩ := hvalues' f hf
  have hget := get_ofFields (by rw [hnames]; decide) hmem
  have hget' := get_ofFields (by rw [hnames']; decide) hmem'
  rw [heq, hget'] at hget
  rw [hv, hv', hget]

/-! ## Sealing -/

/-- Sealing seals, and touches nothing but the seal. -/
theorem sealed_makeReseal {ms : List (String × Json)} {p' : Json}
    (h : makeReseal canon (.obj ms) = .ok p') : Sealed canon p' ∧ (Wf (.obj ms) → Wf p') ∧
      ∃ ms', p' = .obj ms' ∧ ∀ k, k ≠ "exportHash" → Members.get k ms' = Members.get k ms := by
  unfold makeReseal at h
  obtain ⟨fs, hfs, h⟩ := bind_eq_ok.mp h
  cases h
  have hother : ∀ k, k ≠ "exportHash" → Members.get k (Members.set "exportHash"
      (bytes (canon.canonicalJSONSha256 (ofFields fs))) ms) = Members.get k ms :=
    fun k hk => Members.get_set_ne hk _ ms
  refine ⟨⟨fs, ?_, Members.get_set_self ..⟩, fun hwf => wf_set hwf _ (wf_bytes _), _, rfl, hother⟩
  rw [← hfs]
  exact cover_congr fun f hf => by rw [hother f.1 (ne_exportHash hf)]

/-- **The two tiers.** A sealed package comes out of a forgery that re-seals sealed again, and out of the
    naive one exactly if nothing that the seal covers has changed; every top-level field but the forgery's
    own and the export hash is as it was. -/
theorem forgery_tiers (canon : Canon) (hinj : ∀ v w, Wf v → Wf w →
    canon.canonicalJSONSha256 v = canon.canonicalJSONSha256 w → v = w) {pkg : Json} (hwf : Wf pkg)
    (hsealed : Sealed canon pkg) {id : String} {p' : Json} {forgery : Forgery}
    (h : applyForgery pkg id (some (makeReseal canon)) = .ok (p', forgery)) :
    (forgery.reseal = true → Sealed canon p') ∧
    (forgery.reseal = false → (Sealed canon p' ↔
      ∀ f ∈ sealFields canon, f.2 (prop f.1 p') = f.2 (prop f.1 pkg))) ∧
    ∀ k, k ≠ forgery.field → k ≠ "exportHash" → prop k p' = prop k pkg := by
  obtain ⟨fs, hfs, hhash⟩ := hsealed
  obtain ⟨ms, rfl⟩ : ∃ ms, pkg = .obj ms := by
    cases pkg with
    | obj ms => exact ⟨ms, rfl⟩
    | _ => exact absurd hhash (by simp [prop])
  unfold applyForgery at h
  split at h
  · exact absurd h (by simp)
  · rename_i f hf
    have hmem := List.mem_of_find?_eq_some hf
    rw [clone_eq hwf] at h
    obtain ⟨p₀, hp₀, hmutate⟩ := bind_eq_ok.mp h
    cases hp₀
    obtain ⟨p, hp, hseal⟩ := bind_eq_ok.mp hmutate
    obtain ⟨ms₁, rfl, hwf₁, hothers⟩ := editsOnly_mutate hmem ms p hwf hp
    cases hreseal : f.reseal with
    | true =>
        simp only [hreseal, if_true] at hseal
        obtain ⟨p₂, hp₂, hdone⟩ := bind_eq_ok.mp hseal
        cases hdone
        obtain ⟨hsealed', _, ms₂, rfl, hothers'⟩ := sealed_makeReseal hp₂
        refine ⟨fun _ => hsealed', fun hno => absurd (hreseal.symm.trans hno) (by simp), fun k hk hk' => ?_⟩
        exact (hothers' k hk').trans (hothers k hk)
    | false =>
        simp only [hreseal, Bool.false_eq_true, if_false] at hseal
        cases hseal
        refine ⟨fun hyes => absurd (hreseal.symm.trans hyes) (by simp), fun _ => ?_,
          fun k hk _ => hothers k hk⟩
        have hkept : Members.get "exportHash" ms₁ = Members.get "exportHash" ms :=
          hothers _ (field_ne_exportHash hmem)
        constructor
        · rintro ⟨fs₁, hfs₁, hhash₁⟩
          have hsame : some (bytes (canon.canonicalJSONSha256 (ofFields fs)))
              = some (bytes (canon.canonicalJSONSha256 (ofFields fs₁))) :=
            hhash.symm.trans (hkept.symm.trans hhash₁)
          exact covered_of_seal hinj hwf hwf₁ hfs hfs₁ (bytes_injective (Option.some.inj hsame))
        · intro hcovered
          exact ⟨fs, (cover_congr hcovered).trans hfs, hkept.trans hhash⟩

/-- Three bytes for a character. -/
def charBytes (c : Char) : List UInt8 :=
  [UInt8.ofNat (c.toNat / 65536), UInt8.ofNat (c.toNat / 256 % 256), UInt8.ofNat (c.toNat % 256)]

theorem char_lt (c : Char) : c.toNat < 0x110000 := by
  have hvalid : c.toNat < 0xd800 ∨ 0xdfff < c.toNat ∧ c.toNat < 0x110000 := c.valid
  omega

theorem charBytes_append_inj : ∀ cs ds : List Char, cs.flatMap charBytes = ds.flatMap charBytes → cs = ds := by
  intro cs
  induction cs with
  | nil => intro ds h
           cases ds with
           | nil => rfl
           | cons d ds => simp [charBytes] at h
  | cons c cs ih =>
      intro ds h
      cases ds with
      | nil => simp [charBytes] at h
      | cons d ds =>
          simp only [List.flatMap_cons, charBytes, List.cons_append, List.nil_append, List.cons.injEq,
            ← UInt8.toNat_inj, UInt8.toNat_ofNat'] at h
          obtain ⟨h1, h2, h3, hrest⟩ := h
          have hc := char_lt c
          have hd := char_lt d
          have hcd : c.toNat = d.toNat := by omega
          rw [Char.toNat_inj.mp hcd, ih ds hrest]

/-- A hasher that keeps the whole text, and an array taken byte by byte. -/
def sampleCanon : Canon where
  coerce32 := fun v => .ok (match v with
    | some (.arr xs) => (xs.take 32).map fun x => UInt8.ofNat (lowByte x)
    | _ => [])
  canonicalJSONSha256 := fun v => v.print.flatMap charBytes

theorem sampleCanon_injective (v w : Json) (hv : Wf v) (hw : Wf w)
    (h : sampleCanon.canonicalJSONSha256 v = sampleCanon.canonicalJSONSha256 w) : v = w :=
  print_injective hv hw (charBytes_append_inj _ _ h)

/-- That hasher never throws. -/
theorem makeReseal_sample (ms : List (String × Json)) : ∃ p', makeReseal sampleCanon (.obj ms) = .ok p' :=
  ⟨_, rfl⟩

theorem wf_singleton {k : String} {v : Json} (h : Wf v) : Wf (.obj [(k, v)]) :=
  .obj (List.pairwise_singleton _ _) (List.forall_mem_singleton.mpr h)

/-- A bundle with one approval of a plan. -/
def sampleBundle (planHash : List Json) : Json :=
  .obj [("approvalEvidence", .arr [.obj [("planHash", .arr planHash)]])]

/-- The sealed package, with its approval pointed at another plan. -/
theorem forgery_tiers_sample : ∃ pkg p' forgery, Sealed sampleCanon pkg ∧
    applyForgery pkg "planhash" (some (makeReseal sampleCanon)) = .ok (p', forgery) ∧
      forgery.reseal = true ∧ Sealed sampleCanon p' := by
  obtain ⟨pkg, hpkg⟩ := makeReseal_sample [("bundleData", sampleBundle [byte 9])]
  obtain ⟨hsealed, hkeeps, ms, rfl, hothers⟩ := sealed_makeReseal hpkg
  have hwf : Wf (.obj ms) := by
    refine hkeeps (wf_singleton (wf_singleton (.arr (List.forall_mem_singleton.mpr (wf_singleton ?_)))))
    exact .arr (List.forall_mem_singleton.mpr (.num _))
  have hbundle : Members.get "bundleData" ms = some (sampleBundle [byte 9]) := hothers _ (by decide)
  have hedit : editApproval (flipAt "planHash") (sampleBundle [byte 9])
      = .ok (sampleBundle [flipByte (byte 9)]) := rfl
  have hmutate : planhash.mutate (.obj ms) =
      .ok (.obj (Members.set "bundleData" (sampleBundle [flipByte (byte 9)]) ms)) := by
    simp only [planhash, withBundle, get_obj, hbundle, ok_bind, sampleBundle]
    rw [← sampleBundle, hedit]
    rfl
  obtain ⟨p', hp'⟩ := makeReseal_sample (Members.set "bundleData" (sampleBundle [flipByte (byte 9)]) ms)
  have hforged : applyForgery (.obj ms) "planhash" (some (makeReseal sampleCanon)) = .ok (p', planhash) :=
    applyForgery_resealed rfl rfl hwf hmutate hp'
  obtain ⟨htier, _⟩ := forgery_tiers sampleCanon sampleCanon_injective hwf hsealed hforged
  exact ⟨.obj ms, p', planhash, hsealed, hforged, rfl, htier rfl⟩

theorem sampleCanon_coerce32 {bs : List UInt8} (h : bs.length = 32) :
    sampleCanon.coerce32 (some (bytes bs)) = .ok bs := by
  have hbyte : ∀ b : UInt8, UInt8.ofNat (lowByte (byte b.toNat)) = b := fun b => by
    rw [lowByte_byte b.toNat_lt, UInt8.ofNat_toNat]
  have hid : bs.map (fun b => UInt8.ofNat (lowByte (byte b.toNat))) = bs := by simp [hbyte]
  simp only [sampleCanon, bytes, ← List.map_take, List.map_map, ← h, List.take_length]
  exact congrArg Except.ok hid

/-- A package whose bundle is a JSON string with a space in it. -/
def spacedPkg : List (String × Json) := [("bundleData", .str "\x7b \x7d")]

/-- **A changed field under an unbroken seal.** The naive forgery finds no approver to rename and puts the
    bundle back without its space: another string, of the same value to the hasher. -/
theorem rewritten_stays_sealed : (∀ v w, Wf v → Wf w →
      sampleCanon.canonicalJSONSha256 v = sampleCanon.canonicalJSONSha256 w → v = w) ∧
    (∀ bs bs' : List UInt8, bs.length = 32 → bs'.length = 32 →
      sampleCanon.coerce32 (some (bytes bs)) = sampleCanon.coerce32 (some (bytes bs')) → bs = bs') ∧
    ∃ pkg p', makeReseal sampleCanon (.obj spacedPkg) = .ok pkg ∧ Wf pkg ∧ Sealed sampleCanon pkg ∧
      applyForgery pkg "approver" (some (makeReseal sampleCanon)) = .ok (p', approver) ∧
        approver.reseal = false ∧ prop "bundleData" p' ≠ prop "bundleData" pkg ∧ Sealed sampleCanon p' := by
  refine ⟨sampleCanon_injective, fun bs bs' h h' hsame => ?_, ?_⟩
  · rw [sampleCanon_coerce32 h, sampleCanon_coerce32 h'] at hsame
    exact Except.ok.inj hsame
  obtain ⟨pkg, hpkg⟩ := makeReseal_sample spacedPkg
  obtain ⟨hsealed, hkeeps, ms, rfl, hothers⟩ := sealed_makeReseal hpkg
  have hwf := hkeeps (wf_singleton (.str _))
  have hbundle : Members.get "bundleData" ms = some (.str "\x7b \x7d") := hothers _ (by decide)
  have hparse : parse "\x7b \x7d".toList = some (.obj []) := rfl
  have hedit : editApproval (assign "identity" (.str "acc://attacker.evil/admin")) (.obj []) = .ok (.obj []) := rfl
  have hmutate : approver.mutate (.obj ms) =
      .ok (.obj (Members.set "bundleData" (.str (String.ofList (Json.obj []).print)) ms)) := by
    simp only [approver, withBundle, get_obj, hbundle, ok_bind, hparse, hedit]
    rfl
  obtain ⟨fs, hfs, hhash⟩ := hsealed
  refine ⟨.obj ms, .obj (Members.set "bundleData" (.str (String.ofList (Json.obj []).print)) ms), hpkg, hwf,
    ⟨fs, hfs, hhash⟩, applyForgery_naive rfl rfl hwf hmutate _, rfl, ?_, fs, ?_, ?_⟩
  · intro h
    simp only [prop, Members.get_set_self, hbundle, Option.some.injEq, Json.str.injEq] at h
    exact absurd h (by decide +kernel)
  · rw [← hfs]
    refine cover_congr fun f hf => ?_
    by_cases hname : f.1 = "bundleData"
    · -- both strings are the empty object to the hasher
      have htreat : f.2 = fun v => .ok (some (bundleDataAsCanonicalValue v)) := by
        simp only [sealFields, List.mem_cons, List.not_mem_nil, or_false] at hf
        rcases hf with rfl | rfl | rfl | rfl | rfl | rfl | rfl | rfl | rfl | rfl | rfl | rfl <;>
          first | rfl | exact absurd hname (by decide)
      rw [htreat, hname, Members.get_set_self, hbundle]
      rfl
    · rw [Members.get_set_ne hname]
  · exact (Members.get_set_ne (by decide) _ _).trans hhash

end Web
end InfrixPlayground
