import InfrixPlayground.Lib.PercentCoding
import InfrixPlayground.Api.Admission
import InfrixPlayground.Web.Wire

/-!
# `Web.Picker` — what a visitor can ask for

The server advertises the flows and modes of its instance; the page asks for them when it boots, offers its
own flows as far as they are advertised, and posts what the visitor has picked. The two sides meet only in
the texts they exchange. `picks_admitted`: in every session with an instance, whatever the order in which
the runtime walks the allowlist and whether or not the page got the configuration, what the page posts
passes the checks of that instance, and a page with the configuration offers everything that passes them.
-/

namespace InfrixPlayground
namespace Api

open Worker

variable {X : Externals}

/-! ## What the server says -/

/-- An order in which the runtime walks the allowlist. -/
structure AbuseGuard.Walk (g : AbuseGuard) where
  flows : List String
  perm : flows.Perm g.allowedFlows.keys

/-- `writeJSON`, of a body that marshals. -/
def writeJSON (body : Json) : List Char := Json.goIndented.write 0 body ++ ['\n']

/-- The modes of an instance. -/
def Config.modes (cfg : Config) : List String :=
  [modeAnonymous.name] ++ if cfg.kermitEnabled then [modeKermit.name] else []

/-- The body of `GET /api/config`; `encoding/json` writes a map by its keys. -/
def configBody (cfg : Config) (g : AbuseGuard) (walk : g.Walk) : Json :=
  .struct
    [ ("allowedFlows", some (.arr (walk.flows.map .str))),
      ("kermitEnabled", some (.bool cfg.kermitEnabled)),
      ("modes", some (.arr (cfg.modes.map .str))) ]

/-- `GET /api/config`. -/
def Server.handleConfig (s : Server X) (walk : s.guard.Walk) : List Char :=
  writeJSON (configBody s.cfg s.guard walk)

end Api

namespace Web

open Api Machine Worker
open PercentCoding (utf8)

/-! ## Replies as the page gets them -/

/-- What `fetch` resolves to. -/
structure Response where
  status : Nat
  body : List Char

/-- `res.ok`. -/
def Response.ok (res : Response) : Bool := decide (200 ≤ res.status ∧ res.status < 300)

/-- What `api` returns; `none` where it throws, as it does when `fetch` fails. A body that is no JSON is
    `null`. -/
def api (res : Option Response) : Option Json :=
  match res with
  | none => none
  | some res => if res.ok then some ((Json.parse res.body).getD .null) else none

/-! ## The picker -/

/-- The keys of `FLOWS`. -/
def flowIds : List String := ["golden-escrow", "create-did", "issue-credential"]

/-- The configuration of a page that has none from the server. -/
def defaultPageConfig : Json :=
  .obj [("kermitEnabled", .bool false), ("allowedFlows", .arr [.str "golden-escrow"]),
    ("modes", .arr [.str "anonymous"])]

/-- `config.kermitEnabled`, as a condition. -/
def kermitOffered (config : Json) : Bool := Js.truthy (Js.prop "kermitEnabled" config)

/-- The allowlist as advertised, if that is a nonempty array. -/
def advertised (config : Json) : List Json :=
  match Js.prop "allowedFlows" config with
  | some (.arr (v :: vs)) => v :: vs
  | _ => [.str "golden-escrow"]

/-- The flows of the picker. -/
def allowedFlowIds (config : Json) : List String :=
  let ids := flowIds.filter fun id => (advertised config).any fun v => textOf (some v) = some id
  if ids = [] then ["golden-escrow"] else ids

/-- The mode buttons, and whether they are enabled. -/
def modeButtons (config : Json) : List (String × Bool) :=
  [("anonymous", true), ("kermit", kermitOffered config)]

/-! ## A session -/

/-- Where a run on the page stands. -/
inductive TheaterStage where
  /-- The request is under way. -/
  | asking
  | running
  /-- It failed, with an offer to try again. -/
  | failed
  /-- The server did not take the request. -/
  | refused
deriving DecidableEq

/-- What the page shows. -/
inductive View where
  /-- Waiting for the configuration. -/
  | booting
  | home
  | theater (mode flow : String) (stage : TheaterStage)
  | elsewhere
  /-- `boot` has thrown. -/
  | broken
deriving DecidableEq

/-- The page's globals. As history, `sent` keeps what it asked the server to run, mode first. -/
structure Session where
  config : Json
  selectedMode : String
  selectedFlow : String
  footerClaim : String
  view : View
  sent : List (String × String)

/-- The footer of an instance without Kermit; the page comes with it. -/
def fixtureClaim : String :=
  "Runs a governed flow you verify yourself — no install, no wallet, no real funds. (Fixture-backed on this instance; caps at L3 — no live-L0 claim.)"

def liveClaim : String :=
  "Runs on the live Accumulate Kermit testnet — real anchors (reaches L4), no install, no wallet, no real funds."

/-- The page as it loads. -/
def Session.start : Session :=
  { config := defaultPageConfig
    selectedMode := "anonymous"
    selectedFlow := "golden-escrow"
    footerClaim := fixtureClaim
    view := .booting
    sent := [] }

inductive SessionAction where
  /-- `/api/config` is answered, or the request has failed; the hash is that of the landing or another. -/
  | boot (res : Option Response) (home : Bool)
  /-- The hash changes, to that of the landing or another. -/
  | go (home : Bool)
  | clickMode (mode : String)
  | clickFlow (id : String)
  | clickRun
  /-- The request for a run is answered. -/
  | answer (accepted : Bool)
  /-- The run that is shown fails. -/
  | fail
  | clickRetry

/-- `route`. -/
def Session.route (s : Session) (home : Bool) : Session :=
  { s with view := if home then .home else .elsewhere }

/-- The rest of `boot`: the footer, then the first view. -/
def Session.booted (s : Session) (home : Bool) : Session :=
  match Js.get "kermitEnabled" (some s.config) with
  -- `updateFooterClaim` throws, and nothing is shown
  | .error _ => { s with view := .broken }
  | .ok v => Session.route { s with footerClaim := if Js.truthy v then liveClaim else fixtureClaim } home

/-- `startRun`, up to its request. -/
def Session.startRun (s : Session) (mode flow : String) : Session :=
  let flow := if flow ≠ "" then flow else if s.selectedFlow ≠ "" then s.selectedFlow else "golden-escrow"
  { s with view := .theater mode flow .asking, sent := s.sent ++ [(mode, flow)] }

def Session.step (s : Session) : SessionAction → Option Session
  | .boot res home =>
    if s.view = .booting then
      match api res with
      -- the defaults stand
      | none => some (s.booted home)
      | some config =>
        -- a configuration of `null` throws here and again in the footer
        some (Session.booted
          { s with
            config := config
            selectedMode := if kermitOffered config = false ∧ s.selectedMode = "kermit" then "anonymous"
              else s.selectedMode } home)
    else none
  | .go home =>
    match s.view with
    -- `boot` has not come to listen yet, or never will
    | .booting | .broken => none
    | _ => some (s.route home)
  | .clickMode mode =>
    if s.view = .home then
      ((modeButtons s.config).find? fun b => b.1 = mode).map fun b =>
        if b.2 then { s with selectedMode := mode } else s
    else none
  | .clickFlow id =>
    if s.view = .home ∧ id ∈ allowedFlowIds s.config then some { s with selectedFlow := id } else none
  | .clickRun => if s.view = .home then some (s.startRun s.selectedMode s.selectedFlow) else none
  | .answer accepted =>
    match s.view with
    | .theater mode flow .asking =>
      some { s with view := .theater mode flow (if accepted then .running else .refused) }
    | _ => none
  | .fail =>
    match s.view with
    | .theater mode flow .running => some { s with view := .theater mode flow .failed }
    | _ => none
  | .clickRetry =>
    match s.view with
    | .theater mode flow .failed => some (s.startRun mode flow)
    | _ => none

/-! ## The request -/

/-- `JSON.stringify({ mode, flow })`. -/
def requestText (mode flow : String) : List Char := Json.print (.obj [("mode", .str mode), ("flow", .str flow)])

/-- `encoding/json` decodes the page's requests: their two members, as they are. -/
def Decodes (X : Externals) : Prop := ∀ mode ∈ ["anonymous", "kermit"], ∀ flow ∈ flowIds,
  X.decodeRunRequest (utf8 (requestText mode flow)) = some { mode, flow }

/-! ## The configuration on its way -/

theorem keys_newAbuseGuard : newAbuseGuard.allowedFlows.keys.Perm playgroundFlows := by decide

/-- What a page may offer of an instance: some of its flows, and its Kermit mode only if there is one. -/
structure Offers (cfg : Config) (config : Json) : Prop where
  flows : ∀ id ∈ allowedFlowIds config, id ∈ playgroundFlows
  kermit : ∃ b, Js.get "kermitEnabled" (some config) = .ok (some (.bool b)) ∧ (b = true → cfg.kermitAvailable = true)

theorem kermitOffered_of_get {config : Json} {b : Bool}
    (h : Js.get "kermitEnabled" (some config) = .ok (some (.bool b))) : kermitOffered config = b := by
  have hprop : Js.prop "kermitEnabled" config = some (.bool b) := by
    cases config with
    | null => cases h
    | _ => exact Except.ok.inj h
  rw [kermitOffered, hprop]
  rfl

theorem kermitOffered_default : kermitOffered defaultPageConfig = false := rfl

theorem offers_default (cfg : Config) : Offers cfg defaultPageConfig :=
  { flows := by decide
    kermit := ⟨false, rfl, nofun⟩ }

/-- What a page offers that has the configuration: all of its flows, and its modes. -/
structure OffersAll (cfg : Config) (config : Json) : Prop where
  flows : allowedFlowIds config = playgroundFlows
  kermit : Js.get "kermitEnabled" (some config) = .ok (some (.bool cfg.kermitEnabled))

theorem OffersAll.offers {cfg : Config} {config : Json} (h : OffersAll cfg config) : Offers cfg config :=
  { flows := fun id hid => by rwa [h.flows] at hid
    kermit := ⟨cfg.kermitEnabled, h.kermit, id⟩ }

theorem inOrder_texts (xs : List String) :
    Json.inOrder (.arr (xs.map .str)) = .arr (xs.map .str) := by
  rw [Json.inOrder]
  congr 1
  induction xs with
  | nil => rfl
  | cons x xs ih =>
      have hx : Json.inOrder (.str x) = .str x := by simp only [Json.inOrder]
      rw [List.map_cons, Json.inOrderElements, ih, hx]

/-- **The configuration arrives.** Whatever the order of the walk, the page reads the instance's flows, in
    the order of its own registry, and whether Kermit is enabled. -/
theorem config_arrives {X : Externals} {srv : Server X} (hguard : srv.guard = newAbuseGuard)
    (walk : srv.guard.Walk) :
    ∃ config, api (some { status := 200, body := srv.handleConfig walk }) = some config ∧
      OffersAll srv.cfg config := by
  obtain ⟨ms, hms, hget⟩ := Json.get_struct
    [ ("allowedFlows", some (.arr (walk.flows.map .str))),
      ("kermitEnabled", some (.bool srv.cfg.kermitEnabled)),
      ("modes", some (.arr (srv.cfg.modes.map .str))) ] (by simp)
  have hflows := hget "allowedFlows" _ List.mem_cons_self
  have hkermit := hget "kermitEnabled" _ (List.mem_cons_of_mem _ List.mem_cons_self)
  rw [Option.map_some, inOrder_texts] at hflows
  have hparse : Json.parse (srv.handleConfig walk) = some (.obj ms) := by
    rw [Server.handleConfig, writeJSON, Json.Style.parse_write_space _ _ _ (by simp [Json.isSpace]), configBody, hms]
  refine ⟨.obj ms, ?_, ?_, ?_⟩
  · show some ((Json.parse (srv.handleConfig walk)).getD .null) = _
    rw [hparse, Option.getD_some]
  · have hmem : ∀ id, id ∈ walk.flows ↔ id ∈ playgroundFlows := fun id =>
      (walk.perm.mem_iff).trans (by rw [hguard]; exact keys_newAbuseGuard.mem_iff)
    have hadv : advertised (.obj ms) = walk.flows.map .str := by
      have hprop : Js.prop "allowedFlows" (.obj ms) = some (.arr (walk.flows.map .str)) := hflows
      rw [advertised, hprop]
      cases hwalk : walk.flows with
      | nil => exact absurd ((hmem "golden-escrow").mpr (by decide)) (by rw [hwalk]; exact List.not_mem_nil)
      | cons f fs => rfl
    have hany : ∀ id ∈ flowIds, ((advertised (.obj ms)).any fun v => textOf (some v) = some id) = true := by
      intro id hid
      rw [hadv, List.any_map, List.any_eq_true]
      exact ⟨id, (hmem id).mpr hid, by simp [textOf]⟩
    have hfilter : (flowIds.filter fun id => (advertised (.obj ms)).any fun v => textOf (some v) = some id)
        = flowIds := List.filter_eq_self.mpr hany
    rw [allowedFlowIds, hfilter]
    rfl
  · show Except.ok (Members.get "kermitEnabled" ms) = _
    rw [hkermit]
    rfl

/-! ## A session stays within what it may offer -/

/-- What an instance admits: a mode it offers and one of the flows. -/
def Admissible (cfg : Config) (pick : String × String) : Prop :=
  (pick.1 = "anonymous" ∨ pick.1 = "kermit" ∧ cfg.kermitAvailable = true) ∧ pick.2 ∈ playgroundFlows

/-- The footer that goes with a configuration. -/
def claimFor (config : Json) : String := if kermitOffered config then liveClaim else fixtureClaim

/-- **The invariant of a session** that has booted with a configuration. -/
structure Within (cfg : Config) (config : Json) (s : Session) : Prop where
  configured : s.config = config
  shown : s.view ≠ .booting ∧ s.view ≠ .broken
  footer : s.footerClaim = claimFor config
  selected : Admissible cfg (s.selectedMode, s.selectedFlow)
  theater : ∀ mode flow stage, s.view = .theater mode flow stage → Admissible cfg (mode, flow)
  sent : ∀ pick ∈ s.sent, Admissible cfg pick

theorem ne_empty_of_flow {flow : String} (h : flow ∈ playgroundFlows) : flow ≠ "" := by
  rintro rfl
  exact absurd h (by decide)

/-- What is asked for is what was picked. -/
theorem startRun_eq {s : Session} {mode flow : String} (h : flow ≠ "") :
    s.startRun mode flow = { s with view := .theater mode flow .asking, sent := s.sent ++ [(mode, flow)] } := by
  unfold Session.startRun
  rw [if_pos h]

theorem Within.startRun {cfg : Config} {config : Json} {s : Session} (h : Within cfg config s)
    {mode flow : String} (hpick : Admissible cfg (mode, flow)) : Within cfg config (s.startRun mode flow) := by
  rw [startRun_eq (ne_empty_of_flow hpick.2)]
  refine { configured := h.configured, shown := ⟨nofun, nofun⟩, footer := h.footer, selected := h.selected, theater := ?_,
           sent := ?_ }
  · intro m f stage hview
    cases hview
    exact hpick
  · intro pick hmem
    rcases List.mem_append.mp hmem with hold | hnew
    · exact h.sent pick hold
    · exact List.mem_singleton.mp hnew ▸ hpick

theorem Within.step {cfg : Config} {config : Json} (hoffers : Offers cfg config) {s s' : Session} {a : SessionAction}
    (h : Within cfg config s) (hs : s.step a = some s') : Within cfg config s' := by
  cases a with
  | boot res home =>
      rw [Session.step, if_neg h.shown.1] at hs
      cases hs
  | go home =>
      have hs' : s' = s.route home := by
        rw [Session.step] at hs
        split at hs
        · cases hs
        · cases hs
        · exact (Option.some.inj hs).symm
      subst hs'
      refine { h with shown := ?_, theater := ?_ }
      · cases home <;> exact ⟨nofun, nofun⟩
      · cases home <;> exact nofun
  | clickMode mode =>
      rw [Session.step] at hs
      split at hs
      · obtain ⟨⟨name, enabled⟩, hb, rfl⟩ := Option.map_eq_some_iff.mp hs
        dsimp only
        split
        · rename_i henabled
          obtain ⟨rfl⟩ : name = mode := by simpa using List.find?_some hb
          refine { h with selected := ⟨?_, h.selected.2⟩ }
          have hmem := List.mem_of_find?_eq_some hb
          rw [modeButtons, h.configured] at hmem
          rcases List.mem_cons.mp hmem with hanon | hkermit
          · exact .inl (Prod.mk.inj hanon).1
          · obtain ⟨hname, hoffered⟩ := Prod.mk.inj (List.mem_singleton.mp hkermit)
            obtain ⟨b, hget, hb⟩ := hoffers.kermit
            refine .inr ⟨hname, hb ?_⟩
            rw [← kermitOffered_of_get hget, ← hoffered]
            assumption
        · exact h
      · cases hs
  | clickFlow id =>
      rw [Session.step] at hs
      split at hs
      · rename_i hid
        cases hs
        rw [h.configured] at hid
        exact { h with selected := ⟨h.selected.1, hoffers.flows id hid.2⟩ }
      · cases hs
  | clickRun =>
      rw [Session.step] at hs
      split at hs
      · cases hs
        exact h.startRun h.selected
      · cases hs
  | answer accepted =>
      rw [Session.step] at hs
      split at hs
      · rename_i mode flow hview
        cases hs
        refine { h with shown := ⟨nofun, nofun⟩, theater := ?_ }
        intro m f stage heq
        cases heq
        exact h.theater mode flow .asking hview
      · cases hs
  | fail =>
      rw [Session.step] at hs
      split at hs
      · rename_i mode flow hview
        cases hs
        refine { h with shown := ⟨nofun, nofun⟩, theater := ?_ }
        intro m f stage heq
        cases heq
        exact h.theater mode flow .running hview
      · cases hs
  | clickRetry =>
      rw [Session.step] at hs
      split at hs
      · rename_i mode flow hview
        cases hs
        exact h.startRun (h.theater mode flow .failed hview)
      · cases hs

/-- The rest of `boot` with a configuration that says whether Kermit is enabled. -/
theorem booted_eq {s : Session} {b : Bool} (hget : Js.get "kermitEnabled" (some s.config) = .ok (some (.bool b)))
    (home : Bool) : s.booted home = Session.route { s with footerClaim := claimFor s.config } home := by
  rw [Session.booted, hget, claimFor, kermitOffered_of_get hget]
  rfl

/-- **`boot`.** It shows a view, and starts a session within what the page may offer. -/
theorem within_boot {cfg : Config} {res : Option Response} {home : Bool} {s : Session}
    (hoffers : ∀ config, api res = some config → Offers cfg config)
    (hs : Session.start.step (.boot res home) = some s) :
    Within cfg ((api res).getD defaultPageConfig) s := by
  have hbooted : ∀ config mode, Offers cfg config → mode = "anonymous" →
      Within cfg config (Session.booted { Session.start with config := config, selectedMode := mode } home) := by
    rintro config mode hoffers rfl
    obtain ⟨b, hget, _⟩ := hoffers.kermit
    have hpicked : Admissible cfg ("anonymous", "golden-escrow") := ⟨.inl rfl, by decide⟩
    rw [booted_eq hget]
    refine { configured := rfl, shown := ?_, footer := rfl, selected := hpicked, theater := ?_, sent := nofun }
    · cases home <;> exact ⟨nofun, nofun⟩
    · cases home <;> exact nofun
  have hview : Session.start.view = .booting := rfl
  rw [Session.step, if_pos hview] at hs
  cases hres : api res with
  | none =>
      rw [hres] at hs
      cases hs
      exact hbooted defaultPageConfig "anonymous" (offers_default cfg) rfl
  | some config =>
      rw [hres] at hs
      cases hs
      exact hbooted config _ (hoffers config hres) (ite_self _)

theorem Within.exec {cfg : Config} {config : Json} (hoffers : Offers cfg config) {s s' : Session}
    (h : Within cfg config s) {as : List SessionAction} (hs : Machine.exec Session.step s as = some s') :
    Within cfg config s' :=
  exec_invariant (fun _ _ _ h hs => h.step hoffers hs) as h hs

/-! ## All that is admitted can be asked for -/

/-- The clicks from any view to a run. -/
def clicks (pick : String × String) : List SessionAction :=
  [.go true, .clickMode pick.1, .clickFlow pick.2, .clickRun]

theorem exec_clicks {cfg : Config} {config : Json} (hall : OffersAll cfg config) {s : Session}
    (h : Within cfg config s) {pick : String × String} (hpick : Admissible cfg pick) :
    ∃ s', exec Session.step s (clicks pick) = some s' ∧ s'.sent = s.sent ++ [pick] := by
  obtain ⟨mode, flow⟩ := pick
  obtain ⟨hmode, hflow⟩ := hpick
  have hgo : s.step (.go true) = some { s with view := .home } := by
    rw [Session.step]
    split
    · exact absurd ‹_› h.shown.1
    · exact absurd ‹_› h.shown.2
    · rfl
  have hbutton : (modeButtons config).find? (fun b => b.1 = mode) = some (mode, true) := by
    have hkermit := kermitOffered_of_get hall.kermit
    rw [modeButtons]
    rcases hmode with rfl | ⟨rfl, havailable⟩
    · rfl
    · rw [hkermit, Config.kermitEnabled, havailable]
      rfl
  have hclick : Session.step { s with view := .home } (.clickMode mode)
      = some { s with view := .home, selectedMode := mode } := by
    rw [Session.step, if_pos rfl, h.configured, hbutton]
    rfl
  have hpickFlow : Session.step { s with view := .home, selectedMode := mode } (.clickFlow flow)
      = some { s with view := .home, selectedMode := mode, selectedFlow := flow } := by
    rw [Session.step, if_pos]
    exact ⟨rfl, by rw [h.configured, hall.flows]; exact hflow⟩
  have hrun : Session.step { s with view := .home, selectedMode := mode, selectedFlow := flow } .clickRun
      = some { s with
          view := .theater mode flow .asking
          selectedMode := mode
          selectedFlow := flow
          sent := s.sent ++ [(mode, flow)] } := by
    rw [Session.step, if_pos rfl, startRun_eq (ne_empty_of_flow hflow)]
  exact ⟨_, exec_cons_iff.mpr ⟨_, hgo, exec_cons_iff.mpr ⟨_, hclick, exec_cons_iff.mpr ⟨_, hpickFlow,
    exec_cons_iff.mpr ⟨_, hrun, rfl⟩⟩⟩⟩, rfl⟩

/-! ## A server that takes what it is asked for -/

variable {X : Externals}

/-- What an instance admits, its checks let through, as it was picked. -/
theorem screen_pick (hdecodes : Decodes X) {cfg : Config} {pick : String × String} (h : Admissible cfg pick)
    (kermitDisabled : String) :
    screen X cfg newAbuseGuard kermitDisabled (utf8 (requestText pick.1 pick.2))
      = .ok { mode := ⟨pick.1⟩, flow := pick.2 } := by
  obtain ⟨mode, flow⟩ := pick
  obtain ⟨hmode, hflow⟩ := h
  have hmem : mode ∈ ["anonymous", "kermit"] := by
    rcases hmode with rfl | ⟨rfl, _⟩
    · exact List.mem_cons_self
    · exact List.mem_cons_of_mem _ List.mem_cons_self
  have hrequested : requestedFlow { mode, flow } = flow := if_neg (ne_empty_of_flow hflow)
  have hmodeOf : requestedMode { mode, flow } = ⟨mode⟩ := by
    rcases hmode with rfl | ⟨rfl, _⟩ <;> rfl
  have hcheck : checkMode X cfg kermitDisabled { mode, flow } = none := by
    rw [checkMode_eq_none, hmodeOf]
    rcases hmode with rfl | ⟨rfl, havailable⟩
    · exact .inl rfl
    · exact .inr ⟨rfl, havailable⟩
  rw [screen, hdecodes mode hmem flow hflow]
  simp only [hrequested, checkFlow_eq_none.mpr hflow, hcheck, hmodeOf]

/-- What passes the checks of an instance, it admits. -/
theorem admissible_of_screen {cfg : Config} {kermitDisabled : String} {body : GoText.Bytes} {p : RunParams}
    (h : screen X cfg newAbuseGuard kermitDisabled body = .ok p) : Admissible cfg (p.mode.name, p.flow) := by
  obtain ⟨hflow, hmode⟩ := screen_ok h
  refine ⟨?_, hflow⟩
  rcases hmode with hmode | ⟨hmode, havailable⟩
  · exact .inl (congrArg Mode.name hmode)
  · exact .inr ⟨congrArg Mode.name hmode, havailable⟩

/-- The handling of a request for a run never leaves what it asked for: it is not refused by a check, and it
    ends with the run's number or at the limiter. -/
def Taken (p : RunParams) (q : Request) : Prop :=
  match q.stage with
  | .received | .denied _ | .denying _ => True
  | .screened p' | .admitted p' => p' = p
  | .numbered p' _ | .registered p' _ | .counted p' _ | .started p' _ => p' = p
  | .answered reply => reply.status = 429 ∨ ∃ id, reply = .accepted id p.mode .running flowSteps
  | .refused _ | .refusing _ | .polling .. | .fetching .. | .left => False

theorem handleStep_cfg {s s' : Server X} {q q' : Request} {now : Time} (hs : HandleStep s q now s' q') :
    s'.cfg = s.cfg := by
  cases hs <;> rfl

/-- A request stays what it is while it is handled. -/
theorem handleStep_asks {s s' : Server X} {q q' : Request} {now : Time} (hs : HandleStep s q now s' q') :
    q'.endpoint = q.endpoint ∧ q'.http = q.http := by
  cases hs <;> exact ⟨rfl, rfl⟩

theorem Taken.handle {s s' : Server X} {q q' : Request} {now : Time} {p : RunParams}
    (hcreate : q.endpoint = .createRun)
    (hscreen : ∀ kermitDisabled, screen X s.cfg s.guard kermitDisabled q.http.body = .ok p) (h : Taken p q)
    (hs : s.handle q now = some (s', q')) : Taken p q' := by
  unfold Taken at h
  by_cases hreturned : q.stage.Returned
  · -- of the stages past `Start`, only the first is one of this endpoint
    cases hstage : q.stage with
    | started p' id =>
        rw [hstage] at h
        rw [Server.handle, hcreate] at hs
        simp only [Server.handleCreateRun, hstage] at hs
        cases hs
        subst h
        exact .inr ⟨id, rfl⟩
    | _ => rw [hstage] at h hreturned; first | exact h.elim | exact hreturned.elim
  cases handle_step hs with
  | refuse hc hr => rw [hscreen] at hr; cases hr
  | pass hc hp =>
      rw [hscreen] at hp
      cases hp
      exact rfl
  | countRefused hc => rw [hc] at h; exact h.elim
  | replyRefused hc => rw [hc] at h; exact h.elim
  | @ask p' _ d hc hd =>
      rw [hc] at h
      have hp : p' = p := h
      unfold Taken
      cases hallowed : d.allowed with
      | true => exact hp
      | false => trivial
  | countDenied hc => trivial
  | replyDenied hc => exact .inl rfl
  | number hc _ => rw [hc] at h; exact h
  | register hc _ => rw [hc] at h; exact h
  | count hc _ => rw [hc] at h; exact h
  | launch hc _ => rw [hc] at h; exact h
  | wait hc _ => exact absurd hc hreturned
  | answer hc _ => exact absurd hc hreturned

/-- The requests of an instance that ask for `p` in its texts. -/
structure TakesAll (cfg : Config) (body : GoText.Bytes) (p : RunParams) (t : Serving X) : Prop where
  cfg : t.server.cfg = cfg
  guard : t.server.guard = newAbuseGuard
  taken : ∀ (i : Nat) (q : Request), t.requests[i]? = some q → q.endpoint = .createRun → q.http.body = body → Taken p q

theorem TakesAll.quiet {cfg : Config} {body : GoText.Bytes} {p : RunParams} {t : Serving X}
    (h : TakesAll cfg body p t) {server : Server X} (hcfg : server.cfg = t.server.cfg)
    (hguard : server.guard = t.server.guard) : TakesAll cfg body p { t with server := server } :=
  { cfg := hcfg.trans h.cfg
    guard := hguard.trans h.guard
    taken := h.taken }

theorem TakesAll.step {cfg : Config} {body : GoText.Bytes} {p : RunParams}
    (hscreen : ∀ kermitDisabled, screen X cfg newAbuseGuard kermitDisabled body = .ok p)
    {t t' : Serving X} {a : ServingAction} (h : TakesAll cfg body p t) (hs : t.step a = some t') :
    TakesAll cfg body p t' := by
  cases a with
  | receive endpoint http =>
      cases hs
      refine { h with taken := fun i q hq hcreate hbody => ?_ }
      rcases getElem?_append_cases hq with hq | ⟨_, rfl⟩
      · exact h.taken i q hq hcreate hbody
      · exact trivial
  | handle i now =>
      rw [Serving.step] at hs
      split at hs
      · cases hs
      rename_i q hq
      obtain ⟨⟨server, q'⟩, hhandle, rfl⟩ := Option.map_eq_some_iff.mp hs
      have hstep := handle_step hhandle
      refine { cfg := (handleStep_cfg hstep).trans h.cfg, guard := hstep.guard_eq.trans h.guard,
               taken := fun j u hu hcreate hbody => ?_ }
      rcases getElem?_set_cases hq hu with ⟨_, rfl⟩ | ⟨_, hu⟩
      · obtain ⟨hendpoint, hhttp⟩ := handleStep_asks hstep
        rw [hendpoint] at hcreate
        rw [hhttp] at hbody
        refine (h.taken i q hq hcreate hbody).handle hcreate (fun kermitDisabled => ?_) hhandle
        rw [h.cfg, h.guard, hbody]
        exact hscreen kermitDisabled
      · exact h.taken j u hu hcreate hbody
  | leave i =>
      rw [Serving.step] at hs
      split at hs
      · cases hs
      rename_i q hq
      split at hs
      · rename_i hstage
        cases hs
        refine { h with taken := fun j u hu hcreate hbody => ?_ }
        rcases getElem?_set_cases hq hu with ⟨_, rfl⟩ | ⟨_, hu⟩
        · -- only an agent's request waits
          have htaken := h.taken i q hq hcreate hbody
          unfold Taken at htaken
          rw [hstage] at htaken
          exact htaken.elim
        · exact h.taken j u hu hcreate hbody
      · cases hs
  | run id a =>
      cases serving_step hs with
      | run _ => exact h.quiet rfl rfl
  | cleanup now =>
      cases serving_step hs with
      | cleanup _ => exact h.quiet rfl rfl
  | verify now http =>
      cases serving_step hs with
      | verify _ => exact h.quiet rfl rfl
  | inc name =>
      cases serving_step hs with
      | inc _ => exact h.quiet rfl rfl

theorem newServer_cfg_guard {C : RunCodec X} {os : Disk} {cfg : Config} {files : FilePath.Files C.Data}
    {server : Server X} (hopen : newServer C os cfg files = .ok server) :
    server.cfg = cfg ∧ server.guard = newAbuseGuard := by
  unfold newServer at hopen
  split at hopen
  · cases hopen
  · cases hopen
    exact ⟨rfl, rfl⟩

theorem takesAll_exec {C : RunCodec X} {os : Disk} {cfg : Config} {files : FilePath.Files C.Data}
    {server : Server X} (hopen : newServer C os cfg files = .ok server) {body : GoText.Bytes} {p : RunParams}
    (hscreen : ∀ kermitDisabled, screen X cfg newAbuseGuard kermitDisabled body = .ok p)
    {ts : List ServingAction} {t : Serving X} (h : exec Serving.step (Serving.new server) ts = some t) :
    TakesAll cfg body p t := by
  obtain ⟨hcfg, hguard⟩ := newServer_cfg_guard hopen
  have hstart : TakesAll cfg body p (Serving.new server) := { cfg := hcfg, guard := hguard, taken := nofun }
  exact exec_invariant (fun _ _ _ h hs => h.step hscreen hs) ts hstart h

/-- **A visitor can ask for exactly what the instance admits.** Take a page that boots with the
    configuration of an instance, its allowlist walked in any order, or with none, and any session after that.
    What the page asks the instance to run is never refused by a check, however its handling interleaves with
    anything else the instance does. With the configuration, everything that passes the checks is a few clicks
    away, and the footer promises live anchors only then, and only of an instance that has Kermit. -/
theorem picks_admitted {C : RunCodec X} {os : Disk} {cfg : Config} {files : FilePath.Files C.Data}
    {server : Server X} (hopen : newServer C os cfg files = .ok server) (hdecodes : Decodes X)
    {res : Option Response}
    (hres : api res = none ∨
      ∃ walk : server.guard.Walk, res = some { status := 200, body := server.handleConfig walk })
    {home : Bool} {as : List SessionAction} {s : Session}
    (h : exec Session.step Session.start (.boot res home :: as) = some s) :
    (∀ pick ∈ s.sent, ∀ (ts : List ServingAction) (t : Serving X),
      exec Serving.step (Serving.new server) ts = some t →
        ∀ (i : Nat) (q : Request), t.requests[i]? = some q → q.endpoint = .createRun →
          q.http.body = utf8 (requestText pick.1 pick.2) → Taken { mode := ⟨pick.1⟩, flow := pick.2 } q) ∧
    (api res ≠ none → ∀ (kermitDisabled : String) (body : GoText.Bytes) (p : RunParams),
      screen X cfg newAbuseGuard kermitDisabled body = .ok p →
        ∃ s', exec Session.step s (clicks (p.mode.name, p.flow)) = some s' ∧
          s'.sent = s.sent ++ [(p.mode.name, p.flow)]) ∧
    (s.footerClaim = liveClaim ↔ api res ≠ none ∧ cfg.kermitAvailable = true) := by
  obtain ⟨hcfg, hguard⟩ := newServer_cfg_guard hopen
  have hall : ∀ config, api res = some config → OffersAll cfg config := by
    intro config hconfig
    rcases hres with hnone | ⟨walk, rfl⟩
    · rw [hnone] at hconfig; cases hconfig
    · obtain ⟨config', harrives, hall⟩ := config_arrives hguard walk
      rw [harrives] at hconfig
      cases hconfig
      exact hcfg ▸ hall
  have hoffers : Offers cfg ((api res).getD defaultPageConfig) := by
    cases hconfig : api res with
    | none => exact offers_default cfg
    | some config => exact (hall config hconfig).offers
  obtain ⟨s₀, hboot, hrest⟩ := exec_cons_iff.mp h
  have hwithin := (within_boot (fun config hconfig => (hall config hconfig).offers) hboot).exec hoffers hrest
  refine ⟨fun pick hpick ts t ht i q hq hcreate hbody => ?_, fun hsome kermitDisabled body p hp => ?_, ?_⟩
  · exact (takesAll_exec hopen (screen_pick hdecodes (hwithin.sent pick hpick)) ht).taken i q hq hcreate hbody
  · obtain ⟨config, hconfig⟩ := Option.ne_none_iff_exists'.mp hsome
    rw [hconfig] at hwithin
    exact exec_clicks (hall config hconfig) hwithin (admissible_of_screen hp)
  · have hclaims : fixtureClaim ≠ liveClaim := by decide +kernel
    rw [hwithin.footer, claimFor]
    cases hconfig : api res with
    | none => simp [kermitOffered_default, hclaims]
    | some config =>
        have hkermit := kermitOffered_of_get (hall config hconfig).kermit
        cases havailable : cfg.kermitAvailable <;>
          simp [hkermit, Config.kermitEnabled, havailable, hclaims]

/-- The stand-in with a decoder for the page's requests. -/
def decodingX : Externals :=
  { sampleX with
    decodeRunRequest := fun body => (Json.parse (body.map fun b => Char.ofNat b.toNat)).map fun v =>
      { mode := (textOf (Js.prop "mode" v)).getD "", flow := (textOf (Js.prop "flow" v)).getD "" } }

theorem decodes_decodingX : Decodes decodingX := by
  unfold Decodes
  decide +kernel

/-- An instance with Kermit. -/
def kermitConfig : Config := { defaultConfig with kermitAvailable := true }

/-- The allowlist, walked the other way round. -/
def backwards : newAbuseGuard.Walk :=
  { flows := playgroundFlows.reverse
    perm := (List.reverse_perm _).trans keys_newAbuseGuard.symm }

/-- A visitor picks Kermit and a DID. -/
theorem picks_admitted_sample : ∃ server s t q,
    newServer (sampleCodec decodingX) .ok kermitConfig ∅ = .ok server ∧
      (∃ walk : server.guard.Walk, exec Session.step Session.start
        (.boot (some { status := 200, body := server.handleConfig walk }) true :: clicks ("kermit", "create-did"))
          = some s) ∧
      s.sent = [("kermit", "create-did")] ∧ s.footerClaim = liveClaim ∧
      exec Serving.step (Serving.new server)
        (.receive .createRun ⟨utf8 (requestText "kermit" "create-did"), "", "192.0.2.1:40000"⟩ ::
          List.replicate 7 (.handle 0 1)) = some t ∧
      t.requests[0]? = some q ∧ Taken { mode := modeKermit, flow := flowCreateDID } q := by
  have hsession : ((exec Session.step Session.start (.boot
      (some { status := 200, body := writeJSON (configBody kermitConfig newAbuseGuard backwards) }) true ::
        clicks ("kermit", "create-did"))).map fun s => s.sent) = some [("kermit", "create-did")] := by
    decide +kernel
  have hserving : ((newServer (sampleCodec decodingX) .ok kermitConfig ∅).toOption.bind fun server =>
      (exec Serving.step (Serving.new server)
        (.receive .createRun ⟨utf8 (requestText "kermit" "create-did"), "", "192.0.2.1:40000"⟩ ::
          List.replicate 7 (.handle 0 1))).map fun t => t.requests.map fun q => (q.endpoint, q.http.body))
      = some [(.createRun, utf8 (requestText "kermit" "create-did"))] := by
    decide +kernel
  obtain ⟨⟨cfg, guard, limiter, runs⟩, hopen⟩ :
      ∃ server, newServer (sampleCodec decodingX) .ok kermitConfig ∅ = .ok server := ⟨_, rfl⟩
  rw [hopen] at hserving
  obtain ⟨rfl, rfl⟩ : cfg = kermitConfig ∧ guard = newAbuseGuard := newServer_cfg_guard hopen
  obtain ⟨s, hs, hsent⟩ := Option.map_eq_some_iff.mp hsession
  obtain ⟨t, ht, hrequests⟩ := Option.map_eq_some_iff.mp hserving
  obtain ⟨q, hq, hasked⟩ : ∃ q, t.requests[0]? = some q ∧
      (q.endpoint, q.http.body) = (.createRun, utf8 (requestText "kermit" "create-did")) := by
    have hget := congrArg (fun l : List (Endpoint × GoText.Bytes) => l[0]?) hrequests
    rw [List.getElem?_map] at hget
    exact Option.map_eq_some_iff.mp hget
  obtain ⟨hcreate, hbody⟩ := Prod.mk.inj hasked
  obtain ⟨htaken, _, hfooter⟩ := picks_admitted hopen decodes_decodingX (.inr ⟨backwards, rfl⟩) hs
  obtain ⟨config, harrives, _⟩ := config_arrives (newServer_cfg_guard hopen).2 backwards
  have hanswered : api (some { status := 200, body := _ }) ≠ none := Option.ne_none_iff_exists'.mpr ⟨config, harrives⟩
  refine ⟨_, s, t, q, hopen, ⟨backwards, hs⟩, hsent, hfooter.mpr ⟨hanswered, rfl⟩, ht, hq, ?_⟩
  exact htaken ("kermit", "create-did") (by rw [hsent]; exact List.mem_singleton_self _) _ t ht 0 q hq hcreate hbody

end Web
end InfrixPlayground
