import InfrixPlayground.Lib.Machine
import InfrixPlayground.Lib.PercentCoding

/-!
# `Web.Router` — the views of the page and the requests they wait for

`route` renders the view of the current hash into the app element. A view that needs the server's answers is
an asynchronous function: it goes on, after each answer, wherever the visitor is by then. `Page` interleaves
hash changes, their events and the answers in any order. The status page and the Tamper Lab go on inside the
elements they made; the receipt page empties the app element once more when its data is there, and that is
the one thing a later view can lose: `view_matches_iff`.
-/

namespace InfrixPlayground
namespace Web

open Machine

/-! ## Hashes and routes -/

/-- `decodeURIComponent`; `none` is its `URIError`. -/
def decodeURIComponent (s : String) : Option String := (PercentCoding.decode s.toList).bind PercentCoding.fromUTF8

example : decodeURIComponent "%E2%82%AC" = some "€" := by decide +kernel

/-- The views a hash can stand for. -/
inductive Route where
  | home
  | verify
  | lab
  | status
  | metaMask
  | receipt (id : String)
deriving DecidableEq, Repr

/-- What `route` does with a hash. -/
inductive Dispatch where
  | render (r : Route)
  | redirect (hash : String)
  | throws
deriving DecidableEq, Repr

/-- `(location.hash || '#/').replace(/^#/, '')`. -/
def hashPath (hash : String) : List Char :=
  match (if hash = "" then "#/" else hash).toList with
  | '#' :: cs => cs
  | cs => cs

/-- The choice `route` makes. -/
def dispatch (hash : String) : Dispatch :=
  match hashPath hash with
  | '/' :: 'r' :: '/' :: id =>
    match decodeURIComponent (String.ofList id) with
    | some id => .render (.receipt id)
    | none => .throws
  | path =>
    if path = "/verify".toList then .render .verify
    else if path = "/lab".toList then .render .lab
    else if path = "/readiness".toList then .redirect "#/status"
    else if path = "/status".toList then .render .status
    else if path = "/metamask".toList then .render .metaMask
    else .render .home

/-- A hash whose receipt id, if it has one, decodes. -/
structure Link where
  hash : String
  wellFormed : dispatch hash ≠ .throws

/-- The page a legacy link is sent on to. -/
def statusLink : Link := { hash := "#/status", wellFormed := by decide +kernel }

/-! ## What a view shows -/

/-- The values the views hand on without looking into them, and the verifier that runs in the browser:
    `verifyPortablePackage`, which may throw. -/
structure Kinds where
  Receipt : Type
  Bundle : Type
  Verdict : Type
  verify : Bundle → Except String Verdict

variable {K : Kinds}

/-- `GET /api/readiness`. -/
structure Readiness where
  anonymous : Bool
  kermit : Bool
  verifier : Bool
  fixture : Bool
deriving DecidableEq, Repr

/-- `GET /api/receipts/{id}`, as far as the receipt page reads it. -/
structure ReceiptData (K : Kinds) where
  mode : String
  flow : String
  proofLevel : String
  governanceLevel : String
  receipt : K.Receipt

/-- The label over the verdict matrix. -/
def ReceiptData.assuranceLabel (d : ReceiptData K) : String :=
  " · ".intercalate ([d.proofLevel, d.governanceLevel].filter fun level => level ≠ "")

/-- What the matrix host shows. -/
inductive MatrixHost (K : Kinds) where
  | verifying
  | noBundle
  | failed (message : String)
  | checks (verdict : K.Verdict) (assuranceLabel : String)

/-- What the two panels of the lab show. -/
inductive LabPanels (K : Kinds) where
  | empty
  | error (message : String)
  /-- The clean proof and its verdict, once there is one. -/
  | bench (clean : K.Bundle) (verdict : Option K.Verdict)

/-- A child of the app element. -/
inductive Elem (K : Kinds) where
  | homeHero
  | homeFooter
  | verifyHead
  | verifyPanel
  | statusHead
  /-- The rows of the status panel, or the error it shows; empty until the answer is there. -/
  | statusPanel (rows : Option (Except String Readiness))
  | metaMaskHead
  | metaMaskPanel
  | labHead
  | labSplit (panels : LabPanels K)
  | loading
  | error (message : String)
  | receiptHead (mode : String)
  | matrixHost (content : MatrixHost K)
  | actions (id : String) (reverify : Bool)
  | reproduce (flow : String)
  | details (receipt : K.Receipt)

/-! ## Views under way -/

/-- How far the status page has got. -/
inductive StatusView where
  | awaiting
  | done (answer : Except String Readiness)

/-- How far the lab has got. -/
inductive LabView (K : Kinds) where
  | awaiting
  | refused (message : String)
  | verifying (clean : K.Bundle)
  | done (clean : K.Bundle)

/-- How far a receipt page has got. -/
inductive ReceiptPage (K : Kinds) where
  | awaiting
  | refused (message : String)
  | fetching (data : ReceiptData K)
  | verifying (data : ReceiptData K) (pkg : K.Bundle)
  | done (data : ReceiptData K) (pkg : Option K.Bundle)

/-- One call of a render function: the view, and how far it has got. -/
inductive Render (K : Kinds) where
  | home
  | verify
  | metaMask
  | status (s : StatusView)
  | lab (s : LabView K)
  | receipt (id : String) (s : ReceiptPage K)

/-- A call that has just been made. -/
def Render.new : Route → Render K
  | .home => .home
  | .verify => .verify
  | .lab => .lab .awaiting
  | .status => .status .awaiting
  | .metaMask => .metaMask
  | .receipt id => .receipt id .awaiting

/-- The view that was asked for. -/
def Render.route : Render K → Route
  | .home => .home
  | .verify => .verify
  | .metaMask => .metaMask
  | .status _ => .status
  | .lab _ => .lab
  | .receipt id _ => .receipt id

/-- Nothing is pending. -/
def Render.finished : Render K → Bool
  | .status .awaiting => false
  | .lab .awaiting => false
  | .lab (.verifying _) => false
  | .receipt _ .awaiting => false
  | .receipt _ (.fetching _) => false
  | .receipt _ (.verifying ..) => false
  | _ => true

/-! ## The page -/

/-- A child of the app element, and the call that made it. -/
structure Node (K : Kinds) where
  render : Nat
  elem : Elem K

/-- The page: the hash, the queued `hashchange` events, the app element, and every call of a render function
    there has been, in order. -/
structure Page (K : Kinds) where
  hash : Link
  events : Nat
  app : List (Node K)
  renders : List (Render K)

namespace Page

/-- `app.replaceChildren()`, and then the children that call `k` appends. -/
def replace (p : Page K) (k : Nat) (elems : List (Elem K)) : Page K :=
  { p with app := elems.map fun e => { render := k, elem := e } }

/-- Call `k` changes the elements it made, those that are still there and those that are not. -/
def patch (p : Page K) (k : Nat) (f : Elem K → Elem K) : Page K :=
  { p with app := p.app.map fun n => if n.render = k then { n with elem := f n.elem } else n }

/-- How far call `k` has got. -/
def advance (p : Page K) (k : Nat) (r : Render K) : Page K := { p with renders := p.renders.set k r }

/-- What a render function appends before it first waits. -/
def firstElems : Route → List (Elem K)
  | .home => [.homeHero, .homeFooter]
  | .verify => [.verifyHead, .verifyPanel]
  | .lab => [.labHead, .labSplit .empty]
  | .status => [.statusHead, .statusPanel none]
  | .metaMask => [.metaMaskHead, .metaMaskPanel]
  | .receipt _ => [.loading]

/-- A call of the render function of a route, up to its first `await`. -/
def render (p : Page K) (r : Route) : Page K :=
  { p.replace p.renders.length (firstElems r) with renders := p.renders ++ [.new r] }

/-- `route()`. -/
def route (p : Page K) : Page K :=
  match dispatch p.hash.hash with
  | .render r => p.render r
  | .redirect _ => { p with hash := statusLink, events := p.events + 1 }
  | .throws => p

/-- The page once `boot` has called `route()`. -/
def boot (hash : Link) : Page K := route { hash := hash, events := 0, app := [], renders := [] }

end Page

/-- What a pending request comes back with. -/
inductive Answer (K : Kinds) where
  | readiness (r : Except String Readiness)
  | sample (bundle : Except String K.Bundle)
  | data (d : Except String (ReceiptData K))
  | bundle (pkg : Option K.Bundle)
  | verdict

/-- What happens to the page. -/
inductive PageAction (K : Kinds) where
  | go (hash : Link)
  | hashchange
  | arrive (k : Nat) (answer : Answer K)

namespace Page

/-- The elements of the receipt page once its data is there. -/
def receiptElems (id : String) (data : ReceiptData K) : List (Elem K) :=
  [.receiptHead data.mode, .matrixHost .verifying, .actions id false, .reproduce data.flow,
    .details data.receipt]

/-- The panel of the status page gets its rows. -/
def setPanel (r : Except String Readiness) : Elem K → Elem K
  | .statusPanel _ => .statusPanel (some r)
  | e => e

/-- The panels of the lab change. -/
def setPanels (panels : LabPanels K) : Elem K → Elem K
  | .labSplit _ => .labSplit panels
  | e => e

/-- The matrix host changes. -/
def setMatrix (content : MatrixHost K) : Elem K → Elem K
  | .matrixHost _ => .matrixHost content
  | e => e

/-- `reverifyBtn.disabled = false`. -/
def enableReverify : Elem K → Elem K
  | .actions id _ => .actions id true
  | e => e

/-- Call `k`, resumed with an answer, up to where it waits next. -/
def resume (p : Page K) (k : Nat) : Render K → Answer K → Option (Page K)
  | .status .awaiting, .readiness r => some ((p.patch k (setPanel r)).advance k (.status (.done r)))
  | .lab .awaiting, .sample (.error e) =>
    some ((p.patch k (setPanels (.error e))).advance k (.lab (.refused e)))
  | .lab .awaiting, .sample (.ok clean) =>
    some ((p.patch k (setPanels (.bench clean none))).advance k (.lab (.verifying clean)))
  | .lab (.verifying clean), .verdict =>
    match K.verify clean with
    | .ok v => some ((p.patch k (setPanels (.bench clean (some v)))).advance k (.lab (.done clean)))
    -- nothing catches what the verifier throws here
    | .error _ => some (p.advance k (.lab (.done clean)))
  | .receipt id .awaiting, .data (.error e) =>
    some ((p.replace k [.error e]).advance k (.receipt id (.refused e)))
  | .receipt id .awaiting, .data (.ok data) =>
    -- not guarded: the view may not be the current one any more
    some ((p.replace k (receiptElems id data)).advance k (.receipt id (.fetching data)))
  | .receipt id (.fetching data), .bundle none =>
    some ((p.patch k (setMatrix .noBundle)).advance k (.receipt id (.done data none)))
  | .receipt id (.fetching data), .bundle (some pkg) => some (p.advance k (.receipt id (.verifying data pkg)))
  | .receipt id (.verifying data pkg), .verdict =>
    match K.verify pkg with
    | .ok v =>
      some (((p.patch k (setMatrix (.checks v data.assuranceLabel))).patch k enableReverify).advance k
        (.receipt id (.done data (some pkg))))
    | .error e =>
      some ((p.patch k (setMatrix (.failed e))).advance k (.receipt id (.done data (some pkg))))
  | _, _ => none

/-- One step of the page. -/
def step (p : Page K) : PageAction K → Option (Page K)
  | .go hash =>
    -- only a change of the hash queues an event
    if hash.hash = p.hash.hash then some p else some { p with hash := hash, events := p.events + 1 }
  | .hashchange => if p.events = 0 then none else some (route { p with events := p.events - 1 })
  | .arrive k answer =>
    match p.renders[k]? with
    | none => none
    | some r => p.resume k r answer

end Page

/-! ## The view of a route -/

/-- What the matrix host shows in the end, by the bundle that came. -/
def ReceiptData.matrix (d : ReceiptData K) (pkg : Option K.Bundle) : MatrixHost K :=
  match pkg with
  | none => .noBundle
  | some pkg =>
    match K.verify pkg with
    | .ok v => .checks v d.assuranceLabel
    | .error e => .failed e

/-- The matrix is there to be replayed. -/
def MatrixHost.isChecks : MatrixHost K → Bool
  | .checks .. => true
  | _ => false

/-- What a call of a render function amounts to on a page that it has for itself. -/
def Render.view : Render K → List (Elem K)
  | .home => [.homeHero, .homeFooter]
  | .verify => [.verifyHead, .verifyPanel]
  | .metaMask => [.metaMaskHead, .metaMaskPanel]
  | .status .awaiting => [.statusHead, .statusPanel none]
  | .status (.done r) => [.statusHead, .statusPanel (some r)]
  | .lab .awaiting => [.labHead, .labSplit .empty]
  | .lab (.refused e) => [.labHead, .labSplit (.error e)]
  | .lab (.verifying clean) => [.labHead, .labSplit (.bench clean none)]
  | .lab (.done clean) => [.labHead, .labSplit (.bench clean (K.verify clean).toOption)]
  | .receipt _ .awaiting => [.loading]
  | .receipt _ (.refused e) => [.error e]
  | .receipt id (.fetching data) => Page.receiptElems id data
  | .receipt id (.verifying data _) => Page.receiptElems id data
  | .receipt id (.done data pkg) =>
    [.receiptHead data.mode, .matrixHost (data.matrix pkg), .actions id (data.matrix pkg).isChecks,
      .reproduce data.flow, .details data.receipt]

/-- The content is the view of the route, complete, for some answers to its requests. -/
def IsView (r : Route) (elems : List (Elem K)) : Prop :=
  ∃ c : Render K, c.route = r ∧ c.finished = true ∧ c.view = elems

theorem view_ne_nil (c : Render K) : c.view ≠ [] := by
  cases c with
  | status s => cases s <;> exact List.cons_ne_nil _ _
  | lab s => cases s <;> exact List.cons_ne_nil _ _
  | receipt id s => cases s <;> exact List.cons_ne_nil _ _
  | _ => exact List.cons_ne_nil _ _

theorem view_new (r : Route) : (Render.new r : Render K).view = Page.firstElems r := by cases r <;> rfl

theorem route_new (r : Route) : (Render.new r : Render K).route = r := by cases r <;> rfl

/-- A receipt page that waits for its data. -/
def Render.AwaitsData (c : Render K) : Prop := ∃ id, c = .receipt id .awaiting

namespace Page

/-- Two changes by one call. -/
theorem patch_patch (p : Page K) (k : Nat) (f g : Elem K → Elem K) :
    (p.patch k f).patch k g = p.patch k (g ∘ f) := by
  have hcomp : (p.app.map fun n => if n.render = k then { n with elem := f n.elem } else n).map
      (fun n => if n.render = k then { n with elem := g n.elem } else n)
        = p.app.map fun n => if n.render = k then { n with elem := (g ∘ f) n.elem } else n := by
    rw [List.map_map]
    refine List.map_congr_left fun n _ => ?_
    by_cases hn : n.render = k <;> simp [hn]
  rw [patch, patch, patch, hcomp]

/-- **What an answer does to the page.** The call goes on as the same view. A receipt page that gets its data
    takes the whole app element; any other call changes its own elements into what it shows next. -/
theorem resume_spec {p p' : Page K} {k : Nat} {c : Render K} {a : Answer K} (h : p.resume k c a = some p') :
    ∃ c' : Render K, c'.route = c.route ∧
      ((c.AwaitsData ∧ p' = (p.replace k c'.view).advance k c') ∨
        (¬ c.AwaitsData ∧ ∃ f, p' = (p.patch k f).advance k c' ∧ c'.view = c.view.map f)) := by
  -- a call that only goes on changes nothing that is shown
  have hpatch : p.patch k id = p := by
    have hid : p.app.map (fun n => if n.render = k then { n with elem := id n.elem } else n) = p.app :=
      (List.map_congr_left fun n _ => by split <;> rfl).trans (List.map_id p.app)
    rw [patch, hid]
  unfold resume at h
  split at h
  · rename_i r
    cases h
    exact ⟨.status (.done r), rfl, .inr ⟨nofun, setPanel r, rfl, rfl⟩⟩
  · rename_i e
    cases h
    exact ⟨.lab (.refused e), rfl, .inr ⟨nofun, setPanels (.error e), rfl, rfl⟩⟩
  · rename_i clean
    cases h
    exact ⟨.lab (.verifying clean), rfl, .inr ⟨nofun, setPanels (.bench clean none), rfl, rfl⟩⟩
  · rename_i clean
    have hview : ∀ v, (K.verify clean).toOption = v →
        (Render.lab (.done clean)).view = [.labHead, .labSplit (.bench clean v)] := by rintro v rfl; rfl
    split at h
    · rename_i v hv
      cases h
      refine ⟨.lab (.done clean), rfl, .inr ⟨nofun, setPanels (.bench clean (some v)), rfl, ?_⟩⟩
      exact hview _ (by rw [hv]; rfl)
    · rename_i e hv
      cases h
      refine ⟨.lab (.done clean), rfl, .inr ⟨nofun, id, by rw [hpatch], ?_⟩⟩
      exact hview _ (by rw [hv]; rfl)
  · rename_i rid e
    cases h
    exact ⟨.receipt rid (.refused e), rfl, .inl ⟨⟨rid, rfl⟩, rfl⟩⟩
  · rename_i rid data
    cases h
    exact ⟨.receipt rid (.fetching data), rfl, .inl ⟨⟨rid, rfl⟩, rfl⟩⟩
  · rename_i rid data
    cases h
    exact ⟨.receipt rid (.done data none), rfl, .inr ⟨nofun, setMatrix .noBundle, rfl, rfl⟩⟩
  · rename_i rid data pkg
    cases h
    refine ⟨.receipt rid (.verifying data pkg), rfl, .inr ⟨nofun, id, by rw [hpatch], ?_⟩⟩
    exact (List.map_id _).symm
  · rename_i rid data pkg
    have hview : ∀ content, data.matrix (some pkg) = content →
        (Render.receipt rid (.done data (some pkg))).view = [.receiptHead data.mode, .matrixHost content,
          .actions rid content.isChecks, .reproduce data.flow, .details data.receipt] := by
      rintro content rfl; rfl
    split at h
    · rename_i v hv
      cases h
      refine ⟨.receipt rid (.done data (some pkg)), rfl,
        .inr ⟨nofun, enableReverify ∘ setMatrix (.checks v data.assuranceLabel), ?_, ?_⟩⟩
      · rw [patch_patch]
      · exact hview _ (by simp only [ReceiptData.matrix, hv])
    · rename_i e hv
      cases h
      refine ⟨.receipt rid (.done data (some pkg)), rfl, .inr ⟨nofun, setMatrix (.failed e), rfl, ?_⟩⟩
      exact hview _ (by simp only [ReceiptData.matrix, hv])
  · cases h

/-! ## The invariant -/

/-- The routes of all calls, in order. -/
def routes (p : Page K) : List Route := p.renders.map Render.route

/-- The route of the last call. -/
def latest (p : Page K) : Option Route := p.routes.getLast?

/-- Nothing in the app element was put there for another route than the last one rendered. -/
def Fresh (p : Page K) : Prop := ∀ n ∈ p.app, p.routes[n.render]? = p.latest

/-- Nothing is pending: no event is queued, and no call waits. -/
def Quiet (p : Page K) : Prop := p.events = 0 ∧ ∀ c ∈ p.renders, c.finished = true

/-- **The view matches the route.** -/
def ViewMatches (p : Page K) : Prop :=
  p.Fresh ∧ (p.Quiet → ∃ r, dispatch p.hash.hash = .render r ∧ IsView r (p.app.map Node.elem))

/-- The elements a call shows, as children of the app element. -/
def nodes (k : Nat) (elems : List (Elem K)) : List (Node K) := elems.map fun e => { render := k, elem := e }

/-- One call has the app element to itself. -/
def ShownBy (p : Page K) (k : Nat) (c : Render K) : Prop := p.renders[k]? = some c ∧ p.app = nodes k c.view

/-- **The invariant.** The app element always shows one call's view, and once no event is queued the last
    call was for the current hash. -/
structure Coherent (p : Page K) : Prop where
  shown : p.app = [] ∧ p.renders = [] ∨ ∃ k c, p.ShownBy k c
  current : p.events = 0 → ∃ r, p.latest = some r ∧ dispatch p.hash.hash = .render r

/-- A change by call `k` where call `k'` is shown. -/
theorem patch_nodes {k k' : Nat} {elems : List (Elem K)} {f : Elem K → Elem K} :
    (nodes k' elems).map (fun n => if n.render = k then { n with elem := f n.elem } else n)
      = nodes k' (if k' = k then elems.map f else elems) := by
  unfold nodes
  rw [List.map_map]
  by_cases hk : k' = k
  · rw [if_pos hk, List.map_map]
    exact List.map_congr_left fun e _ => if_pos hk
  · rw [if_neg hk]
    exact List.map_congr_left fun e _ => if_neg hk

/-- Going on as the same view changes no route. -/
theorem routes_advance {p : Page K} {k : Nat} {c c' : Render K} (hc : p.renders[k]? = some c)
    (hroute : c'.route = c.route) : (p.renders.set k c').map Render.route = p.routes := by
  obtain ⟨hlt, hget⟩ := List.getElem?_eq_some_iff.mp hc
  rw [List.map_set, hroute, ← hget, routes]
  refine List.ext_getElem? fun i => ?_
  by_cases hi : k = i
  · subst hi
    rw [List.getElem?_set_self (by simpa using hlt), List.getElem?_eq_getElem (by simpa using hlt)]
    simp
  · rw [List.getElem?_set_ne hi]

/-- A call of a render function is shown, and is the last. -/
theorem render_shownBy (p : Page K) (r : Route) :
    (p.render r).ShownBy p.renders.length (.new r) ∧ (p.render r).latest = some r := by
  refine ⟨⟨List.getElem?_concat_length, ?_⟩, ?_⟩
  · rw [view_new]; rfl
  · rw [latest, routes, render, List.map_append, List.map_singleton, route_new, List.getLast?_concat]

/-- `route()` leaves a coherent page, if what it has changed nothing but the queue. -/
theorem coherent_route {p : Page K} (hshown : p.app = [] ∧ p.renders = [] ∨ ∃ k c, p.ShownBy k c) :
    p.route.Coherent := by
  unfold route
  split
  · rename_i r hr
    obtain ⟨hby, hlatest⟩ := p.render_shownBy r
    exact ⟨.inr ⟨_, _, hby⟩, fun _ => ⟨r, hlatest, hr⟩⟩
  · exact ⟨hshown, nofun⟩
  · rename_i hthrows
    exact absurd hthrows p.hash.wellFormed

theorem coherent_boot (hash : Link) : (boot hash : Page K).Coherent := coherent_route (.inl ⟨rfl, rfl⟩)

/-- What an answer leaves alone, and who is shown after it. -/
theorem resume_shown {p p' : Page K} {k : Nat} {c : Render K} {a : Answer K} (hc : p.renders[k]? = some c)
    (hs : p.resume k c a = some p') :
    p'.hash = p.hash ∧ p'.events = p.events ∧ p'.routes = p.routes ∧
      ((c.AwaitsData ∧ ∃ c', p'.ShownBy k c') ∨
        (¬ c.AwaitsData ∧ ∀ k' c', p.ShownBy k' c' → ∃ c'', p'.ShownBy k' c'')) := by
  obtain ⟨hlt, _⟩ := List.getElem?_eq_some_iff.mp hc
  obtain ⟨c', hroute, ⟨hdata, rfl⟩ | ⟨hno, f, rfl, hview⟩⟩ := resume_spec hs
  · exact ⟨rfl, rfl, routes_advance hc hroute, .inl ⟨hdata, c', List.getElem?_set_self hlt, rfl⟩⟩
  · refine ⟨rfl, rfl, routes_advance hc hroute, .inr ⟨hno, fun k' d hshown => ?_⟩⟩
    obtain ⟨hd, happ⟩ := hshown
    have happ' : ((p.patch k f).advance k c').app = nodes k' (if k' = k then d.view.map f else d.view) := by
      show p.app.map _ = _
      rw [happ, patch_nodes]
    by_cases hk : k' = k
    · -- the call that goes on is the one that is shown
      subst hk
      cases Option.some.inj (hc.symm.trans hd)
      exact ⟨c', List.getElem?_set_self hlt, by rw [happ', if_pos rfl, hview]⟩
    · exact ⟨d, (List.getElem?_set_ne (Ne.symm hk)).trans hd, by rw [happ', if_neg hk]⟩

/-- **Every step keeps the page coherent.** -/
theorem Coherent.step {p p' : Page K} {a : PageAction K} (h : p.Coherent) (hs : p.step a = some p') :
    p'.Coherent := by
  unfold Page.step at hs
  cases a with
  | go hash =>
      dsimp only at hs
      split at hs
      · cases hs; exact h
      · cases hs; exact ⟨h.shown, nofun⟩
  | hashchange =>
      dsimp only at hs
      split at hs
      · cases hs
      · cases hs; exact coherent_route h.shown
  | arrive k answer =>
      dsimp only at hs
      split at hs
      · cases hs
      · rename_i c hc
        obtain ⟨hhash, hevents, hroutes, hshown⟩ := resume_shown hc hs
        refine ⟨.inr ?_, fun hquiet => ?_⟩
        · rcases hshown with ⟨_, c', hby⟩ | ⟨_, hkept⟩
          · exact ⟨k, c', hby⟩
          · rcases h.shown with ⟨_, hnone⟩ | ⟨k', d, hby⟩
            · rw [hnone] at hc; cases hc
            · obtain ⟨d', hby'⟩ := hkept k' d hby
              exact ⟨k', d', hby'⟩
        · rw [latest, hroutes, hhash]
          exact h.current (hevents ▸ hquiet)

/-- Whether the page is fresh, from the call that is shown. -/
theorem ShownBy.fresh_iff {p : Page K} {k : Nat} {c : Render K} (h : p.ShownBy k c) :
    p.Fresh ↔ p.routes[k]? = p.latest := by
  obtain ⟨_, happ⟩ := h
  constructor
  · intro hfresh
    obtain ⟨e, he⟩ := List.exists_mem_of_ne_nil _ (view_ne_nil c)
    exact hfresh { render := k, elem := e } (happ ▸ List.mem_map_of_mem he)
  · intro hk n hn
    rw [happ] at hn
    obtain ⟨e, _, rfl⟩ := List.mem_map.mp hn
    exact hk

theorem ShownBy.route {p : Page K} {k : Nat} {c : Render K} (h : p.ShownBy k c) :
    p.routes[k]? = some c.route := by
  rw [routes, List.getElem?_map, h.1]
  rfl

/-- **On a coherent page** all that can go wrong is that a call for another route is shown. -/
theorem Coherent.viewMatches_iff {p : Page K} (h : p.Coherent) : p.ViewMatches ↔ p.Fresh := by
  refine ⟨And.left, fun hfresh => ⟨hfresh, fun ⟨hevents, hfinished⟩ => ?_⟩⟩
  obtain ⟨r, hlatest, hr⟩ := h.current hevents
  rcases h.shown with ⟨_, hnone⟩ | ⟨k, c, hby⟩
  · rw [latest, routes, hnone] at hlatest
    cases hlatest
  · have hroute : c.route = r := by
      have hk := hby.fresh_iff.mp hfresh
      rw [hby.route, hlatest] at hk
      exact Option.some.inj hk
    refine ⟨r, hr, c, hroute, hfinished c (List.mem_of_getElem? hby.1), ?_⟩
    rw [hby.2, nodes, List.map_map]
    exact (List.map_id _).symm

/-- The data of a receipt page comes while that receipt's page is the view rendered last. -/
def Timely (p : Page K) : PageAction K → Prop
  | .arrive k _ => ∀ id, p.renders[k]? = some (.receipt id .awaiting) → p.latest = some (.receipt id)
  | _ => True

/-- `route()` shows the route it renders, or leaves the page as it is. -/
theorem fresh_route {p : Page K} (h : p.Fresh) : p.route.Fresh := by
  unfold route
  split
  · rename_i r _
    obtain ⟨hby, hlatest⟩ := p.render_shownBy r
    rw [hby.fresh_iff, hlatest, hby.route, route_new]
  · exact h
  · exact h

theorem fresh_boot (hash : Link) : (boot hash : Page K).Fresh := fresh_route nofun

/-- **One step.** A page that shows the latest view still does so after a step exactly if the step is
    timely. -/
theorem Coherent.fresh_step {p p' : Page K} {a : PageAction K} (h : p.Coherent) (hfresh : p.Fresh)
    (hs : p.step a = some p') : p'.Fresh ↔ p.Timely a := by
  unfold Page.step at hs
  cases a with
  | go hash =>
      dsimp only at hs
      split at hs
      · cases hs; exact iff_of_true hfresh trivial
      · cases hs; exact iff_of_true hfresh trivial
  | hashchange =>
      dsimp only at hs
      split at hs
      · cases hs
      · cases hs; exact iff_of_true (fresh_route hfresh) trivial
  | arrive k answer =>
      dsimp only at hs
      split at hs
      · cases hs
      · rename_i c hc
        obtain ⟨_, _, hroutes, ⟨⟨id, rfl⟩, c', hby⟩ | ⟨hno, hkept⟩⟩ := resume_shown hc hs
        · -- call `k` has taken the app element
          have hk : p.routes[k]? = some (.receipt id) := by
            rw [routes, List.getElem?_map, hc]; rfl
          rw [hby.fresh_iff, latest, hroutes, hk]
          constructor
          · intro hlatest id' hid'
            cases Option.some.inj (hc.symm.trans hid')
            exact hlatest.symm
          · intro htimely
            exact (htimely id hc).symm
        · -- whoever was shown is still shown
          refine iff_of_true ?_ fun id hid => absurd ⟨id, Option.some.inj (hc.symm.trans hid)⟩ hno
          rcases h.shown with ⟨_, hnone⟩ | ⟨k', d, hby⟩
          · rw [hnone] at hc; cases hc
          · obtain ⟨d', hby'⟩ := hkept k' d hby
            rw [hby'.fresh_iff, latest, hroutes]
            exact hby.fresh_iff.mp hfresh

end Page

/-- **When the view matches the route.** For any hash to start from, and any order of hash changes, of their
    events and of the answers, the page shows nothing but the view rendered last, and the complete view of
    the current hash whenever nothing is pending, exactly if no receipt's data comes after the visitor has
    moved on to another view. -/
theorem view_matches_iff {hash : Link} {as : List (PageAction K)} {p : Page K}
    (h : exec Page.step (Page.boot hash) as = some p) :
    Always Page.step Page.ViewMatches (Page.boot hash) as ↔
      Meets Page.step Page.Timely (Page.boot hash) as := by
  have hstart := Page.coherent_boot (K := K) hash
  refine always_iff (I := Page.Coherent) (fun p a p' hc hs => hc.step hs) (fun p a p' hc hm hs => ?_) as
    hstart (hstart.viewMatches_iff.mpr (Page.fresh_boot hash)) h
  rw [(hc.step hs).viewMatches_iff]
  exact hc.fresh_step (hc.viewMatches_iff.mp hm) hs

/-! ## Two receipts -/

/-- Texts for receipts and bundles, and a verifier that never throws. -/
abbrev sampleKinds : Kinds := { Receipt := String, Bundle := String, Verdict := String, verify := .ok }

/-- A receipt as the server sends it. -/
def sampleData (receipt : String) : ReceiptData sampleKinds :=
  { mode := "anonymous"
    flow := "golden-escrow"
    proofLevel := "L3"
    governanceLevel := ""
    receipt := receipt }

def alphaLink : Link := { hash := "#/r/alpha", wellFormed := by decide +kernel }

def betaLink : Link := { hash := "#/r/beta", wellFormed := by decide +kernel }

theorem dispatch_alpha : dispatch alphaLink.hash = .render (.receipt "alpha") := by decide +kernel

theorem dispatch_beta : dispatch betaLink.hash = .render (.receipt "beta") := by decide +kernel

/-- The visitor opens one share link and then another before the first one's data is there. -/
def visitBoth : List (PageAction sampleKinds) := [.go betaLink, .hashchange]

/-- The page after that. -/
def bothAwaited : Page sampleKinds :=
  { hash := betaLink
    events := 0
    app := Page.nodes 1 [.loading]
    renders := [.receipt "alpha" .awaiting, .receipt "beta" .awaiting] }

theorem exec_visitBoth : exec Page.step (Page.boot alphaLink) visitBoth = some bothAwaited := by
  let first : Page sampleKinds :=
    { hash := alphaLink
      events := 0
      app := Page.nodes 0 [.loading]
      renders := [.receipt "alpha" .awaiting] }
  have hboot : Page.boot alphaLink = first := by
    unfold Page.boot Page.route
    simp only [dispatch_alpha]
    rfl
  have hne : betaLink.hash ≠ alphaLink.hash := by decide
  have hgo : first.step (.go betaLink) = some { first with hash := betaLink, events := 1 } := by
    rw [Page.step, if_neg hne]
  rw [hboot]
  refine exec_cons_iff.mpr ⟨_, hgo, exec_cons_iff.mpr ⟨_, rfl, ?_⟩⟩
  rw [exec_nil]
  unfold Page.route
  simp only [dispatch_beta]
  rfl

/-- The second receipt's data comes while the visitor looks at it. -/
theorem view_matches_sample : Always Page.step Page.ViewMatches (Page.boot alphaLink)
    (visitBoth ++ [.arrive 1 (.data (.ok (sampleData "beta")))]) := by
  refine (view_matches_iff (exec_append_iff.mpr ⟨_, exec_visitBoth, rfl⟩)).mpr ?_
  refine ⟨trivial, fun p₁ h₁ => ⟨trivial, fun p₂ h₂ => ⟨?_, fun _ _ => trivial⟩⟩⟩
  have hrun : exec Page.step (Page.boot alphaLink) visitBoth = some p₂ :=
    exec_cons_iff.mpr ⟨p₁, h₁, exec_cons_iff.mpr ⟨p₂, h₂, rfl⟩⟩
  cases Option.some.inj (exec_visitBoth.symm.trans hrun)
  intro id hid
  cases hid
  rfl

/-- The first receipt's data comes last: the page shows the first proof under the second one's link, and
    nothing is pending any more. -/
theorem stale_receipt_shown : ∃ p : Page sampleKinds,
    exec Page.step (Page.boot alphaLink) (visitBoth ++
      [.arrive 1 (.data (.ok (sampleData "beta"))), .arrive 1 (.bundle none),
        .arrive 0 (.data (.ok (sampleData "alpha"))), .arrive 0 (.bundle none)]) = some p ∧
    p.Quiet ∧ ¬ ∃ r, dispatch p.hash.hash = .render r ∧ IsView r (p.app.map Node.elem) := by
  refine ⟨_, exec_append_iff.mpr ⟨_, exec_visitBoth, rfl⟩, ⟨rfl, List.all_eq_true.mp rfl⟩, ?_⟩
  rintro ⟨r, hr, c, hroute, hfinished, hview⟩
  obtain rfl : r = .receipt "beta" := by
    have he := dispatch_beta.symm.trans hr
    cases he
    rfl
  -- a finished page of the second receipt names it under its matrix
  cases c with
  | receipt id s =>
      cases hroute
      cases s with
      | done data pkg =>
          have hactions : some (Elem.actions "beta" (data.matrix pkg).isChecks)
              = some (.actions "alpha" false) :=
            congrArg (fun elems : List (Elem sampleKinds) => elems[2]?) hview
          exact absurd (Elem.actions.inj (Option.some.inj hactions)).1 (by decide)
      | refused message => cases hview
      | _ => cases hfinished
  | _ => cases hroute

end Web
end InfrixPlayground
