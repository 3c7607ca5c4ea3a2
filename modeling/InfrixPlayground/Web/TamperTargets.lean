import InfrixPlayground.Web.Tamper

/-!
# `Web.TamperTargets` — what a forgery is after

The place of a package each forgery means to change, read as the page itself reads it: a bundle inlined or
as text, its lists under either of their names. `forgery_differs_iff` says which forgeries change the place
they are after: all but the one that drops a policy decision, which looks for the list under one name only.
-/

namespace InfrixPlayground
namespace Web

open Js Json

/-! ## How the page reads a package -/

/-- The bundle, parsed if it is text. -/
def bundleOf (pkg : Json) : Json :=
  match prop "bundleData" pkg with
  | some (.str s) => orEmpty (some ((parse s.toList).getD emptyObject))
  | bd => orEmpty bd

/-- `bd.approvalEvidence || bd.ApprovalEvidence || []`. -/
def approvals (bd : Json) : Value :=
  or (or (prop "approvalEvidence" bd) (prop "ApprovalEvidence" bd)) (some (.arr []))

/-- `bd.policyDecisions || bd.PolicyDecisions || []`. -/
def policyDecisions (bd : Json) : Value :=
  or (or (prop "policyDecisions" bd) (prop "PolicyDecisions" bd)) (some (.arr []))

/-- The first element of a list. -/
def headOf : Value → Value
  | some (.arr (x :: _)) => some x
  | _ => none

/-- What a forgery is after. -/
def target (pkg : Json) (id : String) : Value :=
  if id = "approver" then (headOf (approvals (bundleOf pkg))).bind (prop "identity")
  else if id = "planhash" then (headOf (approvals (bundleOf pkg))).bind (prop "planHash")
  else if id = "outcome" then prop "outcomeDigest" pkg
  else if id = "chainhash" then
    ((headOf (prop "inclusionProofs" pkg)).bind (prop "link")).bind (prop "contentHash")
  else if id = "policy" then policyDecisions (bundleOf pkg)
  else if id = "trust" then (headOf (prop "trustSnapshot" pkg)).bind (prop "blockHeight")
  else if id = "plugin" then (headOf (prop "pluginVersions" pkg)).bind (prop "implementationHash")
  else none

/-- The package has what the forgery is after. -/
inductive HasTarget (pkg : Json) : String → Prop where
  | approver {a : List (String × Json)} (ha : headOf (approvals (bundleOf pkg)) = some (.obj a))
      (hne : Members.get "identity" a ≠ some (.str "acc://attacker.evil/admin")) : HasTarget pkg "approver"
  | planhash {a : List (String × Json)} {b : Json} {bs : List Json}
      (ha : headOf (approvals (bundleOf pkg)) = some (.obj a))
      (hb : Members.get "planHash" a = some (.arr (b :: bs))) : HasTarget pkg "planhash"
  | outcome {b : Json} {bs : List Json} (hb : prop "outcomeDigest" pkg = some (.arr (b :: bs))) :
      HasTarget pkg "outcome"
  | chainhash {pr link : List (String × Json)} {b : Json} {bs : List Json}
      (hpr : headOf (prop "inclusionProofs" pkg) = some (.obj pr))
      (hlink : Members.get "link" pr = some (.obj link))
      (hb : Members.get "contentHash" link = some (.arr (b :: bs))) : HasTarget pkg "chainhash"
  | policy {b : Json} {bs : List Json} (hb : policyDecisions (bundleOf pkg) = some (.arr (b :: bs))) :
      HasTarget pkg "policy"
  | trust {s : List (String × Json)} {n : Decimal} (hs : headOf (prop "trustSnapshot" pkg) = some (.obj s))
      (hn : Members.get "blockHeight" s = some (.num n)) (hpos : n.Positive) : HasTarget pkg "trust"
  | plugin {pv : List (String × Json)} {h : String} (hpv : headOf (prop "pluginVersions" pkg) = some (.obj pv))
      (hh : Members.get "implementationHash" pv = some (.str h)) (hne : h ≠ "") : HasTarget pkg "plugin"

/-! ## Edits, where what they are after is there -/

theorem headOf_eq_some {v : Value} {x : Json} (h : headOf v = some x) : ∃ xs, v = some (.arr (x :: xs)) := by
  unfold headOf at h
  split at h
  · cases h; exact ⟨_, rfl⟩
  · exact absurd h (by simp)

theorem obj_of_prop {k : String} {v w : Json} (h : prop k v = some w) : ∃ ms, v = .obj ms := by
  cases v with
  | obj ms => exact ⟨ms, rfl⟩
  | _ => exact absurd h (by simp [prop])

/-- An edit of the first element of a list that is there. -/
theorem editProp_first {ms : List (String × Json)} {k : String} {x : List (String × Json)} {xs : List Json}
    {f : Json → Except String Json} {x' : Json} (hk : Members.get k ms = some (.arr (.obj x :: xs)))
    (hf : f (.obj x) = .ok x') :
    editProp k (editFirst f) (.obj ms) = .ok (.obj (Members.set k (.arr (x' :: xs)) ms)) := by
  simp only [editProp, hk, editFirst, if_pos (show truthy (some (.obj x)) = true from rfl), hf, ok_bind]

theorem editList_first {ms : List (String × Json)} {k : String} {x : List (String × Json)} {xs : List Json}
    {f : Json → Except String Json} {x' : Json} (hk : Members.get k ms = some (.arr (.obj x :: xs)))
    (hf : f (.obj x) = .ok x') :
    editList k f (.obj ms) = .ok (.obj (Members.set k (.arr (x' :: xs)) ms)) := by
  simp only [editList, get_obj, hk, ok_bind, if_pos (show truthy (some (.arr _)) = true from rfl)]
  exact editProp_first hk hf

theorem flipAt_arr {ms : List (String × Json)} {k : String} {bs : List Json}
    (hk : Members.get k ms = some (.arr bs)) :
    flipAt k (.obj ms) = .ok (.obj (Members.set k (.arr (flipFirst bs)) ms)) := by
  unfold flipAt
  rw [get_obj, hk]
  rfl

theorem flipFirst_ne (b : Json) (bs : List Json) :
    (some (.arr (flipFirst (b :: bs))) : Value) ≠ some (.arr (b :: bs)) := by
  intro h
  have hlist : flipFirst (b :: bs) = b :: bs := Json.arr.inj (Option.some.inj h)
  exact flipByte_ne b (List.cons.inj hlist).1

/-- **The approvals of an edited bundle**, whichever name they go by. -/
theorem editApproval_first {bd : Json} {a : List (String × Json)} {as : List Json}
    {f : Json → Except String Json} {a' : Json} (ha : approvals bd = some (.arr (.obj a :: as)))
    (hf : f (.obj a) = .ok a') :
    ∃ ms', editApproval f bd = .ok (.obj ms') ∧ approvals (.obj ms') = some (.arr (a' :: as)) := by
  obtain ⟨ms, rfl⟩ : ∃ ms, bd = .obj ms := by
    cases bd with
    | obj ms => exact ⟨ms, rfl⟩
    | _ => exact absurd ha (by simp [approvals, prop, Js.or, truthy])
  unfold editApproval
  rw [get_obj]
  show ∃ ms', (if truthy (Members.get "approvalEvidence" ms) then _ else _) = _ ∧ _
  have happrovals : Js.or (Js.or (Members.get "approvalEvidence" ms) (Members.get "ApprovalEvidence" ms))
      (some (.arr [])) = some (.arr (.obj a :: as)) := ha
  cases hcamel : truthy (Members.get "approvalEvidence" ms) with
  | true =>
      rw [or_of_truthy hcamel, or_of_truthy hcamel] at happrovals
      refine ⟨_, (if_pos rfl).trans (editProp_first happrovals hf), ?_⟩
      unfold approvals
      rw [show prop "approvalEvidence" (.obj (Members.set "approvalEvidence" (.arr (a' :: as)) ms))
        = some (.arr (a' :: as)) from Members.get_set_self ..]
      rfl
  | false =>
      rw [or_of_falsy hcamel] at happrovals
      cases hpascal : truthy (Members.get "ApprovalEvidence" ms) with
      | false => rw [or_of_falsy hpascal] at happrovals; exact absurd happrovals (by simp)
      | true =>
          rw [or_of_truthy hpascal] at happrovals
          refine ⟨_, (if_neg Bool.false_ne_true).trans ((if_pos hpascal).trans
            (editProp_first happrovals hf)), ?_⟩
          unfold approvals
          rw [show prop "approvalEvidence" (.obj (Members.set "ApprovalEvidence" (.arr (a' :: as)) ms))
              = Members.get "approvalEvidence" ms from Members.get_set_ne (by decide) _ ms,
            show prop "ApprovalEvidence" (.obj (Members.set "ApprovalEvidence" (.arr (a' :: as)) ms))
              = some (.arr (a' :: as)) from Members.get_set_self .., or_of_falsy hcamel]
          rfl

/-- **An edited bundle is read back as edited**, inlined or as text. -/
theorem withBundle_read {ms bms bms' : List (String × Json)} {fn : Json → Except String Json} {k : String}
    {v : Json} (hb : bundleOf (.obj ms) = .obj bms) (hv : Members.get k bms = some v)
    (hfn : fn (.obj bms) = .ok (.obj bms')) (hwf : Wf (.obj bms')) :
    ∃ ms', withBundle (.obj ms) fn = .ok (.obj ms') ∧ bundleOf (.obj ms') = .obj bms' := by
  have hsome : bms ≠ [] := by rintro rfl; exact absurd hv (by simp [Members.get])
  -- a bundle that has a member is not the empty one that stands for a missing bundle
  have hnonempty : ∀ {w : Value}, orEmpty w = .obj bms → w = some (.obj bms) := by
    intro w hw
    unfold orEmpty at hw
    split at hw
    · cases w with
      | none => rename_i h; exact absurd h (by simp [truthy])
      | some w => exact congrArg some hw
    · exact absurd (Json.obj.inj hw).symm hsome
  unfold withBundle
  rw [get_obj]
  unfold bundleOf at hb
  rw [show prop "bundleData" (.obj ms) = Members.get "bundleData" ms from rfl] at hb
  cases hbd : Members.get "bundleData" ms with
  | none => rw [hbd] at hb; exact absurd (hnonempty hb) (by simp)
  | some bd =>
      rw [hbd] at hb
      cases bd with
      | str s =>
          have hparse := hnonempty hb
          cases hp : parse s.toList with
          | none => rw [hp] at hparse; exact absurd (Json.obj.inj (Option.some.inj hparse)).symm hsome
          | some w =>
              rw [hp] at hparse
              cases hparse
              refine ⟨Members.set "bundleData" (.str (String.ofList (print (.obj bms')))) ms, ?_, ?_⟩
              · simp only [ok_bind, hp, hfn]; rfl
              · unfold bundleOf
                rw [show prop "bundleData" (.obj (Members.set "bundleData"
                    (.str (String.ofList (print (.obj bms')))) ms))
                  = some (.str (String.ofList (print (.obj bms')))) from Members.get_set_self ..]
                simp only [String.toList_ofList, parse_print hwf]
                rfl
      | obj bms₀ =>
          have hsame := hnonempty hb
          cases hsame
          refine ⟨Members.set "bundleData" (.obj bms') ms, ?_, ?_⟩
          · simp only [ok_bind, hfn]; rfl
          · unfold bundleOf
            rw [show prop "bundleData" (.obj (Members.set "bundleData" (.obj bms') ms))
              = some (.obj bms') from Members.get_set_self ..]
            rfl
      | _ => exact absurd (hnonempty hb) (by simp)

theorem wf_bundleOf {pkg : Json} (h : Wf pkg) : Wf (bundleOf pkg) := by
  have hempty : Wf emptyObject := .obj List.Pairwise.nil fun m hm => absurd hm List.not_mem_nil
  have horEmpty : ∀ {v : Value}, WfValue v → Wf (orEmpty v) := by
    intro v hv
    unfold orEmpty
    split
    · cases v with
      | none => exact hempty
      | some w => exact hv w rfl
    · exact hempty
  have hprop : WfValue (prop "bundleData" pkg) := by
    intro w hw
    obtain ⟨ms, rfl⟩ := obj_of_prop hw
    exact wf_get h hw
  unfold bundleOf
  split
  · rename_i s _
    refine horEmpty (wfValue_some ?_)
    cases hp : parse s.toList with
    | none => exact hempty
    | some bd => exact parse_wf hp
  · exact horEmpty hprop

/-- A list that is not the empty default is a member of the bundle. -/
theorem member_of_list {k k' : String} {bd x : Json} {xs : List Json}
    (h : Js.or (Js.or (prop k bd) (prop k' bd)) (some (.arr [])) = some (.arr (x :: xs))) :
    ∃ bms, bd = .obj bms ∧ ∃ name v, Members.get name bms = some v := by
  cases hk : truthy (prop k bd) with
  | true =>
      rw [or_of_truthy hk, or_of_truthy hk] at h
      obtain ⟨bms, rfl⟩ := obj_of_prop h
      exact ⟨bms, rfl, k, _, h⟩
  | false =>
      rw [or_of_falsy hk] at h
      cases hk' : truthy (prop k' bd) with
      | false => rw [or_of_falsy hk'] at h; exact absurd h (by simp)
      | true =>
          rw [or_of_truthy hk'] at h
          obtain ⟨bms, rfl⟩ := obj_of_prop h
          exact ⟨bms, rfl, k', _, h⟩

/-- **An edit of the first approval** is read back from the package. -/
theorem withBundle_approval {ms : List (String × Json)} (hwf : Wf (.obj ms)) {a a' : List (String × Json)}
    {f : Json → Except String Json} (hf : Keeps f)
    (ha : headOf (approvals (bundleOf (.obj ms))) = some (.obj a)) (hfa : f (.obj a) = .ok (.obj a')) :
    ∃ ms', withBundle (.obj ms) (editApproval f) = .ok (.obj ms') ∧
      headOf (approvals (bundleOf (.obj ms'))) = some (.obj a') := by
  obtain ⟨as, has⟩ := headOf_eq_some ha
  obtain ⟨bms, hb, k, v, hv⟩ := member_of_list has
  have hwfb := wf_bundleOf hwf
  rw [hb] at has hwfb
  obtain ⟨bms', hedit, hafter⟩ := editApproval_first has hfa
  obtain ⟨ms', hrun, hread⟩ := withBundle_read hb hv hedit (keeps_editApproval hf _ _ hwfb hedit)
  exact ⟨ms', hrun, by rw [hread, hafter]; rfl⟩

/-! ## Which forgeries change what they are after -/

/-- The list the policy forgery looks for is there. -/
def PoliciesInCamelCase (pkg : Json) : Prop := truthy (prop "policyDecisions" (bundleOf pkg)) = true

/-- **The policy forgery** drops a decision if the list goes by the name it looks for; else it goes through and
    drops nothing. -/
theorem mutate_policy {ms : List (String × Json)} (hwf : Wf (.obj ms)) {b : Json} {bs : List Json}
    (hb : policyDecisions (bundleOf (.obj ms)) = some (.arr (b :: bs))) : ∃ ms',
      policy.mutate (.obj ms) = .ok (.obj ms') ∧
        (policyDecisions (bundleOf (.obj ms')) ≠ policyDecisions (bundleOf (.obj ms)) ↔
          PoliciesInCamelCase (.obj ms)) := by
  obtain ⟨bms, hbundle, k, v, hv⟩ := member_of_list hb
  have hwfb := wf_bundleOf hwf
  have hcamel : PoliciesInCamelCase (.obj ms) ↔ truthy (Members.get "policyDecisions" bms) = true := by
    rw [PoliciesInCamelCase, hbundle]; rfl
  rw [hbundle] at hb hwfb
  cases htruthy : truthy (Members.get "policyDecisions" bms) with
  | true =>
      have hget : Members.get "policyDecisions" bms = some (.arr (b :: bs)) := by
        have hlist := hb
        rw [policyDecisions, prop, or_of_truthy htruthy, or_of_truthy htruthy] at hlist
        exact hlist
      have hdrop : dropPolicy (.obj bms) = .ok (.obj (Members.set "policyDecisions" (.arr bs) bms)) := by
        simp only [dropPolicy, get_obj, hget, ok_bind, assign]
      obtain ⟨ms', hrun, hread⟩ := withBundle_read hbundle hv hdrop (keeps_dropPolicy _ _ hwfb hdrop)
      refine ⟨ms', hrun, iff_of_true ?_ (hcamel.mpr htruthy)⟩
      rw [hread, hbundle, hb, policyDecisions,
        show prop "policyDecisions" (.obj (Members.set "policyDecisions" (.arr bs) bms))
          = some (.arr bs) from Members.get_set_self ..]
      intro h
      have hlen : bs = b :: bs := Json.arr.inj (Option.some.inj h)
      exact absurd (congrArg List.length hlen) (by simp)
  | false =>
      -- the decisions go by their other name, and there is nothing to drop
      have hdrop : dropPolicy (.obj bms) = .ok (.obj bms) := by
        simp only [dropPolicy, get_obj, ok_bind]
        split
        · rename_i hget; rw [hget] at htruthy; exact absurd htruthy (by simp [truthy])
        · rfl
      obtain ⟨ms', hrun, hread⟩ := withBundle_read hbundle hv hdrop hwfb
      refine ⟨ms', hrun, iff_of_false ?_ fun h => ?_⟩
      · rw [not_not, hread, hbundle]
      · rw [hcamel, htruthy] at h
        exact absurd h (by simp)

/-- **The edit of a forgery**, where what it is after is there: it goes through, and changes that place
    unless it is the policy forgery and the decisions go by their other name. -/
theorem mutate_target {ms : List (String × Json)} (hwf : Wf (.obj ms)) {id : String}
    (ht : HasTarget (.obj ms) id) : ∃ f ms', FORGERIES.find? (fun f => f.id == id) = some f ∧
      f.mutate (.obj ms) = .ok (.obj ms') ∧ (target (.obj ms') id ≠ target (.obj ms) id ↔
        (id = "policy" → PoliciesInCamelCase (.obj ms))) := by
  cases ht with
  | @approver a ha hne =>
      obtain ⟨ms', hrun, hafter⟩ := withBundle_approval hwf
        (keeps_assign "identity" (.str "acc://attacker.evil/admin")) ha rfl
      refine ⟨approver, ms', rfl, hrun, iff_of_true ?_ fun h => absurd h (by decide)⟩
      show (headOf _).bind _ ≠ (headOf _).bind _
      rw [hafter, ha]
      show Members.get "identity" (Members.set ..) ≠ Members.get "identity" a
      rw [Members.get_set_self]
      exact hne.symm
  | @planhash a b bs ha hb =>
      obtain ⟨ms', hrun, hafter⟩ := withBundle_approval hwf (keeps_flipAt "planHash") ha (flipAt_arr hb)
      refine ⟨planhash, ms', rfl, hrun, iff_of_true ?_ fun h => absurd h (by decide)⟩
      show (headOf _).bind _ ≠ (headOf _).bind _
      rw [hafter, ha]
      show Members.get "planHash" (Members.set ..) ≠ Members.get "planHash" a
      rw [Members.get_set_self, hb]
      exact flipFirst_ne b bs
  | @outcome b bs hb =>
      refine ⟨outcome, _, rfl, flipAt_arr hb, iff_of_true ?_ fun h => absurd h (by decide)⟩
      show Members.get "outcomeDigest" (Members.set ..) ≠ Members.get "outcomeDigest" ms
      rw [Members.get_set_self, show Members.get "outcomeDigest" ms = _ from hb]
      exact flipFirst_ne b bs
  | @chainhash pr link b bs hpr hlink hb =>
      obtain ⟨prs, hprs⟩ := headOf_eq_some hpr
      have hedit : editProp "link" flipContentHash (.obj pr) = .ok (.obj (Members.set "link"
          (.obj (Members.set "contentHash" (.arr (flipFirst (b :: bs))) link)) pr)) := by
        simp only [editProp, hlink, flipContentHash, if_pos (show truthy (some (.obj link)) = true from rfl),
          flipAt_arr hb, ok_bind]
      refine ⟨chainhash, _, rfl, editList_first hprs hedit, iff_of_true ?_ fun h => absurd h (by decide)⟩
      show ((headOf (Members.get "inclusionProofs" (Members.set ..))).bind _).bind _ ≠ ((headOf _).bind _).bind _
      rw [Members.get_set_self, hpr]
      show (Members.get "link" (Members.set ..)).bind _ ≠ (Members.get "link" pr).bind _
      rw [Members.get_set_self, hlink]
      show Members.get "contentHash" (Members.set ..) ≠ Members.get "contentHash" link
      rw [Members.get_set_self, hb]
      exact flipFirst_ne b bs
  | @policy b bs hb =>
      obtain ⟨ms', hrun, hdiffers⟩ := mutate_policy hwf hb
      exact ⟨policy, ms', rfl, hrun, hdiffers.trans ⟨fun h _ => h, fun h => h rfl⟩⟩
  | @trust s n hs hn hpos =>
      obtain ⟨ss, hss⟩ := headOf_eq_some hs
      refine ⟨trust, _, rfl, editList_first hss rfl, iff_of_true ?_ fun h => absurd h (by decide)⟩
      show (headOf (Members.get "trustSnapshot" (Members.set ..))).bind _ ≠ (headOf _).bind _
      rw [Members.get_set_self, hs]
      show Members.get "blockHeight" (Members.set ..) ≠ Members.get "blockHeight" s
      rw [Members.get_set_self, hn]
      intro h
      have hzero : Decimal.zero = n := Json.num.inj (Option.some.inj h)
      exact hpos.2 (by rw [← hzero]; rfl)
  | @plugin pv h hpv hh hne =>
      obtain ⟨pvs, hpvs⟩ := headOf_eq_some hpv
      refine ⟨plugin, _, rfl, editList_first hpvs rfl, iff_of_true ?_ fun h => absurd h (by decide)⟩
      show (headOf (Members.get "pluginVersions" (Members.set ..))).bind _ ≠ (headOf _).bind _
      rw [Members.get_set_self, hpv]
      show Members.get "implementationHash" (Members.set ..) ≠ Members.get "implementationHash" pv
      rw [Members.get_set_self, hh]
      intro heq
      exact hne (Json.str.inj (Option.some.inj heq)).symm

/-- What a forgery is after is not the seal. -/
theorem target_congr {ms ms' : List (String × Json)}
    (h : ∀ k, k ≠ "exportHash" → Members.get k ms' = Members.get k ms) (id : String) :
    target (.obj ms') id = target (.obj ms) id := by
  have hprop : ∀ k, k ≠ "exportHash" → prop k (.obj ms') = prop k (.obj ms) := h
  have hbundle : bundleOf (.obj ms') = bundleOf (.obj ms) := by
    rw [bundleOf, bundleOf, hprop "bundleData" (by decide)]
  rw [target, target, hbundle, hprop "outcomeDigest" (by decide), hprop "inclusionProofs" (by decide),
    hprop "trustSnapshot" (by decide), hprop "pluginVersions" (by decide)]

theorem obj_of_hasTarget {pkg : Json} {id : String} (h : HasTarget pkg id) : ∃ ms, pkg = .obj ms := by
  have hbundle : ∀ {x : Json} {xs : List Json} {k k' : String}, Js.or (Js.or (prop k (bundleOf pkg))
      (prop k' (bundleOf pkg))) (some (.arr [])) = some (.arr (x :: xs)) → ∃ ms, pkg = .obj ms := by
    intro x xs k k' hlist
    obtain ⟨bms, hb, name, v, hv⟩ := member_of_list hlist
    cases pkg with
    | obj ms => exact ⟨ms, rfl⟩
    | _ =>
        -- without a bundle there is no list
        have hempty : bms = [] := (Json.obj.inj (hb : Json.obj [] = .obj bms)).symm
        rw [hempty] at hv
        exact absurd hv (by simp [Members.get])
  cases h with
  | approver ha _ => obtain ⟨as, has⟩ := headOf_eq_some ha; exact hbundle has
  | planhash ha _ => obtain ⟨as, has⟩ := headOf_eq_some ha; exact hbundle has
  | outcome hb => exact obj_of_prop hb
  | chainhash hpr _ _ => obtain ⟨prs, hprs⟩ := headOf_eq_some hpr; exact obj_of_prop hprs
  | policy hb => exact hbundle hb
  | trust hs _ _ => obtain ⟨ss, hss⟩ := headOf_eq_some hs; exact obj_of_prop hss
  | plugin hpv _ _ => obtain ⟨pvs, hpvs⟩ := headOf_eq_some hpv; exact obj_of_prop hpvs

/-- **Which forgeries are no silent no-ops.** Of a package that has what the forgery is after, the package
    returned differs in that place exactly unless the forgery is to drop a policy decision and the
    decisions are not under their camel-case name. -/
theorem forgery_differs_iff {canon : Canon} {pkg : Json} (hwf : Wf pkg) {id : String}
    (ht : HasTarget pkg id) {p' : Json} {forgery : Forgery}
    (h : applyForgery pkg id (some (makeReseal canon)) = .ok (p', forgery)) :
    target p' id ≠ target pkg id ↔ (id = "policy" → PoliciesInCamelCase pkg) := by
  obtain ⟨ms, rfl⟩ := obj_of_hasTarget ht
  obtain ⟨f, ms₁, hf, hp, hdiffers⟩ := mutate_target hwf ht
  rw [← hdiffers]
  simp only [applyForgery, hf, clone_eq hwf, ok_bind, hp] at h
  cases hreseal : f.reseal with
  | true =>
      simp only [hreseal, if_true] at h
      obtain ⟨p₂, hp₂, hdone⟩ := bind_eq_ok.mp h
      cases hdone
      obtain ⟨_, _, ms₂, rfl, hothers⟩ := sealed_makeReseal hp₂
      rw [target_congr hothers id]
  | false =>
      simp only [hreseal, Bool.false_eq_true, if_false] at h
      cases h
      rfl

/-- A package with an outcome digest. -/
def outcomePkg : Json := .obj [("outcomeDigest", .arr [byte 1, byte 2])]

theorem forgery_differs_iff_sample : ∃ p' forgery,
    applyForgery outcomePkg "outcome" (some (makeReseal sampleCanon)) = .ok (p', forgery) ∧
      target p' "outcome" ≠ target outcomePkg "outcome" := by
  have hwf : Wf outcomePkg :=
    wf_singleton (.arr (List.forall_mem_cons.mpr ⟨.num _, List.forall_mem_singleton.mpr (.num _)⟩))
  have hmutate : outcome.mutate outcomePkg =
      .ok (.obj [("outcomeDigest", .arr [flipByte (byte 1), byte 2])]) := rfl
  obtain ⟨p', hp'⟩ := makeReseal_sample [("outcomeDigest", .arr [flipByte (byte 1), byte 2])]
  have hforged : applyForgery outcomePkg "outcome" (some (makeReseal sampleCanon)) = .ok (p', outcome) :=
    applyForgery_resealed rfl rfl hwf hmutate hp'
  exact ⟨p', outcome, hforged,
    (forgery_differs_iff hwf (.outcome rfl) hforged).mpr fun h => absurd h (by decide)⟩

/-- A package whose policy decisions go by the name Go gives them. -/
def pascalPkg : List (String × Json) :=
  [("bundleData", .obj [("PolicyDecisions", .arr [.obj [("decision", .str "allow")]])])]

/-- **The forgery that changes nothing.** The page shows the decision of a sealed package, and the forgery that
    drops it returns the package as it was. -/
theorem policy_kept : ∃ pkg, makeReseal sampleCanon (.obj pascalPkg) = .ok pkg ∧ Wf pkg ∧
    Sealed sampleCanon pkg ∧ HasTarget pkg "policy" ∧
      applyForgery pkg "policy" (some (makeReseal sampleCanon)) = .ok (pkg, policy) := by
  obtain ⟨pkg, hpkg⟩ := makeReseal_sample pascalPkg
  obtain ⟨⟨fs, hfs, hhash⟩, hkeeps, ms, rfl, hothers⟩ := sealed_makeReseal hpkg
  have hwf : Wf (.obj ms) :=
    hkeeps (wf_singleton (wf_singleton (.arr (List.forall_mem_singleton.mpr (wf_singleton (.str _))))))
  have hbundle : Members.get "bundleData" ms =
      some (.obj [("PolicyDecisions", .arr [.obj [("decision", .str "allow")]])]) := hothers _ (by decide)
  have hsorted : Members.Sorted ms := by cases hwf with | obj h _ => exact h
  have hmutate : policy.mutate (.obj ms) = .ok (.obj ms) := by
    have hdrop : dropPolicy (.obj [("PolicyDecisions", .arr [.obj [("decision", .str "allow")]])])
        = .ok (.obj [("PolicyDecisions", .arr [.obj [("decision", .str "allow")]])]) := rfl
    simp only [policy, withBundle, get_obj, hbundle, ok_bind, hdrop]
    exact congrArg (fun ms => Except.ok (Json.obj ms)) (Members.set_eq_self hsorted hbundle)
  have hreseal : makeReseal sampleCanon (.obj ms) = .ok (.obj ms) := by
    simp only [makeReseal, hfs, ok_bind]
    exact congrArg (fun ms => Except.ok (Json.obj ms)) (Members.set_eq_self hsorted hhash)
  have htarget : policyDecisions (bundleOf (.obj ms)) = some (.arr [.obj [("decision", .str "allow")]]) := by
    simp only [bundleOf, prop, hbundle]
    rfl
  exact ⟨.obj ms, hpkg, hwf, ⟨fs, hfs, hhash⟩, .policy htarget, applyForgery_resealed rfl rfl hwf hmutate hreseal⟩

end Web
end InfrixPlayground
