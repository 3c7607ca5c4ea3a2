import InfrixPlayground.Lib.FilePath
import InfrixPlayground.Lib.PercentCoding
import InfrixPlayground.Lib.ServeMux

/-!
# `Api.Routes` — which handler a request gets

`routes` registers the operational surface, the playground API, the shared modules of the Nexus tree, the
playground's own assets and the page itself with one mux; the assets come out of a map, so in any order. A request
is dispatched on its method and on the cleaned, still escaped path. `findHandler_eq_plain`: whatever the order of
registration, a request with a clean path gets the first handler of the source's list that its segments fit.
`shared_contained`: nothing outside the shared modules leaves the Nexus tree.
-/

namespace InfrixPlayground
namespace Api

open GoText (Bytes)
open PercentCoding ServeMux

/-! ## Request paths -/

/-- `shouldEscape(c, encodePath)` is false. -/
def isPathByte (b : UInt8) : Bool :=
  (48 ≤ b && b ≤ 57) || (65 ≤ b && b ≤ 90) || (97 ≤ b && b ≤ 122) || b ∈ utf8 "-_.~$&+,/:;=@".toList

/-- `validEncoded(s, encodePath)`. -/
def validEncoded (s : List Char) : Bool :=
  s.all fun c => c ∈ "!'()*[]%".toList || (utf8 [c]).all isPathByte

/-- The path of a request: what `r.URL.Path` and `r.URL.EscapedPath()` are. -/
structure RequestPath where
  path : Bytes
  escaped : String
  decodes : decode escaped.toList = some path

theorem isPathByte_ascii : ∀ n < 256, isPathByte (UInt8.ofNat n) = true → n < 128 ∧ n ≠ 37 := by decide +kernel

theorem decode_escape (bs : Bytes) : decode (encode isPathByte bs) = some bs :=
  decode_encode fun b _ hkeep => by
    have h := isPathByte_ascii b.toNat b.toNat_lt (by rwa [UInt8.ofNat_toNat])
    exact ⟨h.1, fun hb => h.2 (congrArg UInt8.toNat hb)⟩

/-- `url.ParseRequestURI`, of the path of a request line; `none` is an invalid escape. -/
def parsePath (target : String) : Option RequestPath :=
  match h : decode target.toList with
  | none => none
  | some path =>
    if validEncoded target.toList then some ⟨path, target, h⟩
    else some ⟨path, String.ofList (encode isPathByte path), by rw [String.toList_ofList, decode_escape]⟩

/-- A path that `cleanPath` returns: its segments, and whether it ends in a slash. -/
structure CleanPath where
  segs : List String
  slash : Bool
deriving DecidableEq, Repr

/-- `cleanPath`. -/
def cleanPath (p : String) : CleanPath :=
  let segs := FilePath.clean true (FilePath.split p)
  { segs, slash := segs.isEmpty || p.toList.getLast? == some '/' }

/-- The path itself. -/
def CleanPath.text (p : CleanPath) : String :=
  String.ofList ('/' :: ['/'].intercalate (p.segs.map String.toList) ++ if p.slash && !p.segs.isEmpty then ['/'] else [])

/-- The path with a slash at its end. -/
def CleanPath.below (p : CleanPath) : CleanPath := { p with slash := true }

/-- `pathUnescape`. -/
def pathUnescape (seg : String) : Bytes := (decode seg.toList).getD (utf8 seg.toList)

/-- The segments that a wildcard stands for; a bare slash is the end of a path. -/
def isSegment (seg : Bytes) : Bool := seg ≠ utf8 ['/']

/-! ## The routes -/

/-- One embedded asset of the playground. -/
structure File where
  name : String
  contentType : String
deriving DecidableEq, Repr

/-- `web.Assets`, by the names below the root. -/
def assets : List File :=
  [ ⟨"playground.js", "application/javascript; charset=utf-8"⟩,
    ⟨"playground.css", "text/css; charset=utf-8"⟩,
    ⟨"bundleScene.js", "application/javascript; charset=utf-8"⟩,
    ⟨"checkMatrix.js", "application/javascript; charset=utf-8"⟩,
    ⟨"tamper.js", "application/javascript; charset=utf-8"⟩,
    ⟨"spine.js", "application/javascript; charset=utf-8"⟩ ]

inductive Handler where
  | healthz
  | readyz
  | metrics
  | config
  | readiness
  | sampleBundle
  | createRun
  | agentRunFlow
  | getRun
  | runEvents
  | getReceipt
  | getBundle
  | verify
  | postEvent
  | eventsSummary
  | shared
  | asset (file : File)
  | index
deriving DecidableEq, Repr

abbrev Route := Pattern Bytes Handler

/-- A literal segment of a pattern. -/
def lit (s : String) : Option Bytes := some (utf8 s.toList)

/-- The segment `{id}` of a pattern. -/
def idSegment : Option Bytes := none

/-- The routes of `GET`, as the source lists them. -/
def getRoutes : List Route :=
  [ ⟨[lit "healthz"], false, .healthz⟩,
    ⟨[lit "readyz"], false, .readyz⟩,
    ⟨[lit "metrics"], false, .metrics⟩,
    ⟨[lit "api", lit "config"], false, .config⟩,
    ⟨[lit "api", lit "readiness"], false, .readiness⟩,
    ⟨[lit "api", lit "sample-bundle"], false, .sampleBundle⟩,
    ⟨[lit "api", lit "runs", idSegment], false, .getRun⟩,
    ⟨[lit "api", lit "runs", idSegment, lit "events"], false, .runEvents⟩,
    ⟨[lit "api", lit "receipts", idSegment], false, .getReceipt⟩,
    ⟨[lit "api", lit "receipts", idSegment, lit "bundle"], false, .getBundle⟩,
    ⟨[lit "api", lit "events", lit "summary"], false, .eventsSummary⟩,
    ⟨[lit "lib"], true, .shared⟩,
    ⟨[lit "components"], true, .shared⟩,
    ⟨[lit "cinema-core"], true, .shared⟩,
    ⟨[lit "styles.css"], false, .shared⟩ ] ++
  assets.map (fun f => ⟨[lit f.name], false, .asset f⟩) ++
  [ ⟨[], true, .index⟩ ]

/-- The routes of `POST`. -/
def postRoutes : List Route :=
  [ ⟨[lit "api", lit "runs"], false, .createRun⟩,
    ⟨[lit "api", lit "agent", lit "run-flow"], false, .agentRunFlow⟩,
    ⟨[lit "api", lit "verify"], false, .verify⟩,
    ⟨[lit "api", lit "events"], false, .postEvent⟩ ]

/-- A mux after `routes`: what was registered for `GET`, in the order in which it was. -/
structure Mux where
  get : List Route
  perm : get.Perm getRoutes

/-! ## Dispatch -/

/-- What becomes of a request. -/
inductive Dispatched where
  | serve (handler : Handler) (values : List Bytes)
  | redirect
  | methodNotAllowed (allow : List String)
  | notFound
deriving DecidableEq, Repr

def matchIn (rs : List Route) (p : CleanPath) : Option (Route × List Bytes) :=
  matchPath isSegment rs (p.segs.map pathUnescape) p.slash

/-- `matchMethodAndPath`: `GET` serves `HEAD` too. -/
def Mux.matches (m : Mux) (method : String) (p : CleanPath) : Option (Route × List Bytes) :=
  if method = "GET" ∨ method = "HEAD" then matchIn m.get p
  else if method = "POST" then matchIn postRoutes p
  else none

/-- `exactMatch`: the pattern stands for the path, and not for one above it. -/
def exactMatch (found : Option (Route × List Bytes)) (p : CleanPath) : Bool :=
  match found with
  | none => false
  | some (r, _) => !r.subtree || (p.slash && r.segs.length == p.segs.length)

/-- `matchingMethods`. -/
def Mux.matchingMethods (m : Mux) (p : CleanPath) : List String :=
  let fits := fun rs => (matchIn rs p).isSome || !p.slash && (matchIn rs p.below).isSome
  (if fits m.get then ["GET", "HEAD"] else []) ++ if fits postRoutes then ["POST"] else []

/-- `matchOrRedirect` redirects: only the path with a slash is matched exactly. -/
def Mux.redirectsBelow (m : Mux) (method : String) (p : CleanPath) : Bool :=
  !exactMatch (m.matches method p) p && !p.slash && exactMatch (m.matches method p.below) p.below

/-- `findHandler`, of a request that is not a `CONNECT`. -/
def Mux.findHandler (m : Mux) (method : String) (u : RequestPath) : Dispatched :=
  let p := cleanPath u.escaped
  if m.redirectsBelow method p then .redirect
  else if p.text ≠ u.escaped then .redirect
  else
    match m.matches method p with
    | some (r, values) => .serve r.handler values
    | none =>
      let allowed := m.matchingMethods p
      if allowed ≠ [] then .methodNotAllowed allowed else .notFound

/-! ## What is found -/

/-- The bytes of a path's segments. -/
def CleanPath.values (p : CleanPath) : List Bytes := p.segs.map pathUnescape

/-- The route that trying them in the source's order finds. -/
def firstRoute (rs : List Route) (p : CleanPath) : Option (Route × List Bytes) :=
  firstMatch isSegment rs p.values p.slash

theorem getRoutes_ordered : Ordered isSegment getRoutes := by decide +kernel

theorem postRoutes_ordered : Ordered isSegment postRoutes := by decide +kernel

theorem Mux.matchIn_get (m : Mux) (p : CleanPath) : matchIn m.get p = firstRoute getRoutes p :=
  matchPath_eq_first isSegment getRoutes_ordered m.perm _ _

theorem matchIn_post (p : CleanPath) : matchIn postRoutes p = firstRoute postRoutes p :=
  matchPath_eq_first isSegment postRoutes_ordered (.refl _) _ _

/-- A path of the root ends in its slash. -/
theorem cleanPath_slash {p : String} (h : (cleanPath p).segs = []) : (cleanPath p).slash = true := by
  have hsegs : FilePath.clean true (FilePath.split p) = [] := h
  simp [cleanPath, hsegs]

theorem firstRoute_mem {rs : List Route} {p : CleanPath} {r : Route} {vs : List Bytes}
    (h : firstRoute rs p = some (r, vs)) : r ∈ rs ∧ r.captures isSegment p.values p.slash = some vs := by
  obtain ⟨r', hr', hcap⟩ := List.exists_of_findSome?_eq_some h
  obtain ⟨vs', hvs, heq⟩ := Option.map_eq_some_iff.mp hcap
  cases heq
  exact ⟨hr', hvs⟩

/-- **The page is there for every path.** -/
theorem firstRoute_isSome (target : String) : (firstRoute getRoutes (cleanPath target)).isSome = true := by
  rw [firstRoute, firstMatch, List.findSome?_isSome_iff]
  refine ⟨⟨[], true, .index⟩, by simp [getRoutes], ?_⟩
  rw [Option.isSome_map]
  cases hsegs : (cleanPath target).segs with
  | nil =>
      rw [cleanPath_slash hsegs, CleanPath.values, hsegs]
      rfl
  | cons s ss =>
      rw [CleanPath.values, hsegs]
      rfl

/-- A directory of the shared modules, asked for without its slash. -/
def BareDirectory (p : CleanPath) : Prop :=
  p.slash = false ∧ p.values ∈ [[utf8 "lib".toList], [utf8 "components".toList], [utf8 "cinema-core".toList]]

instance (p : CleanPath) : Decidable (BareDirectory p) := inferInstanceAs (Decidable (_ ∧ _))

theorem exactMatch_some {r : Route} {vs : List Bytes} {p : CleanPath} :
    exactMatch (some (r, vs)) p = true ↔ r.subtree = false ∨ p.slash = true ∧ r.segs.length = p.segs.length := by
  simp [exactMatch]

theorem subtrees : ∀ r ∈ getRoutes, r.subtree = true →
    r.segs ∈ [[lit "lib"], [lit "components"], [lit "cinema-core"], []] := by decide +kernel

/-- The paths that are matched exactly with one more slash are the directories of the shared modules. -/
theorem bareDirectory_of_exact {target : String} (hslash : (cleanPath target).slash = false)
    (h : exactMatch (firstRoute getRoutes (cleanPath target).below) (cleanPath target).below = true) :
    BareDirectory (cleanPath target) := by
  refine ⟨hslash, ?_⟩
  cases hfound : firstRoute getRoutes (cleanPath target).below with
  | none => rw [hfound] at h; cases h
  | some m =>
      obtain ⟨r, vs⟩ := m
      obtain ⟨hr, hcap⟩ := firstRoute_mem hfound
      rw [hfound, exactMatch_some] at h
      have hsub : r.subtree = true := by
        by_contra hsub
        rw [Pattern.captures, Bool.eq_false_iff.mpr hsub] at hcap
        cases (captures_below isSegment _ _).symm.trans hcap
      rcases h with h | ⟨_, hlen⟩
      · rw [hsub] at h; cases h
      have hlen' : r.segs.length = (cleanPath target).values.length := by
        rw [hlen, CleanPath.values, List.length_map]; rfl
      have hroot : r.segs ≠ [] := by
        intro hnil
        rw [hnil, CleanPath.values, List.length_map, eq_comm, List.length_nil, List.length_eq_zero_iff] at hlen'
        rw [cleanPath_slash hlen'] at hslash
        cases hslash
      have hone : ∀ {name : String}, r.segs = [lit name] → (cleanPath target).values = [utf8 name.toList] := by
        intro name hname
        rw [Pattern.captures, hname, hsub] at hcap
        rw [hname] at hlen'
        obtain ⟨v, hv⟩ := List.length_eq_one_iff.mp hlen'.symm
        rw [show (cleanPath target).below.values = [v] from hv, lit, captures] at hcap
        split at hcap
        · rename_i heq
          rw [hv, heq]
        · cases hcap
      rcases List.mem_cons.mp (subtrees r hr hsub) with hlib | hrest
      · rw [hone hlib]; decide
      rcases List.mem_cons.mp hrest with hcomp | hrest
      · rw [hone hcomp]; decide
      rcases List.mem_cons.mp hrest with hcinema | hnil
      · rw [hone hcinema]; decide
      exact absurd (List.mem_singleton.mp hnil) hroot

theorem firstMatch_directory : ∀ v ∈ [utf8 "lib".toList, utf8 "components".toList, utf8 "cinema-core".toList],
    firstMatch isSegment getRoutes [v] false = some (⟨[], true, .index⟩, []) ∧
      firstMatch isSegment getRoutes [v] true = some (⟨[some v], true, .shared⟩, []) := by decide +kernel

theorem exact_of_bareDirectory {p : CleanPath} (h : BareDirectory p) :
    exactMatch (firstRoute getRoutes p) p = false ∧ exactMatch (firstRoute getRoutes p.below) p.below = true := by
  obtain ⟨hslash, hvalues⟩ := h
  have hv : ∃ v ∈ [utf8 "lib".toList, utf8 "components".toList, utf8 "cinema-core".toList], p.values = [v] := by
    simpa using hvalues
  obtain ⟨v, hv, hpv⟩ := hv
  obtain ⟨hbare, hbelow⟩ := firstMatch_directory v hv
  have hlen : p.segs.length = 1 := by
    have := congrArg List.length hpv
    rwa [CleanPath.values, List.length_map] at this
  constructor
  · rw [firstRoute, hpv, hslash, hbare]
    simp [exactMatch, hslash]
  · rw [firstRoute, show p.below.values = [v] from hpv, show p.below.slash = true from rfl, hbelow, exactMatch_some]
    exact .inr ⟨rfl, hlen.symm⟩

theorem post_not_subtree : ∀ r ∈ postRoutes, r.subtree = false := by decide

/-- No route of `POST` is for a path with a slash at its end. -/
theorem firstRoute_post_below (p : CleanPath) : firstRoute postRoutes p.below = none := by
  rw [firstRoute, firstMatch, List.findSome?_eq_none_iff]
  intro r hr
  rw [Option.map_eq_none_iff, Pattern.captures, post_not_subtree r hr]
  exact captures_below isSegment _ _

/-- Every method but those of the routes for a path is refused with the list of them. -/
theorem Mux.matchingMethods_eq (m : Mux) (target : String) :
    m.matchingMethods (cleanPath target)
      = ["GET", "HEAD"] ++ if (firstRoute postRoutes (cleanPath target)).isSome then ["POST"] else [] := by
  have hget := firstRoute_isSome target
  simp [Mux.matchingMethods, m.matchIn_get, matchIn_post, firstRoute_post_below, hget]

/-! ## Dispatch by trying -/

/-- The routes of a method, as the source lists them. -/
def routesOf (method : String) : List Route :=
  if method = "GET" ∨ method = "HEAD" then getRoutes else if method = "POST" then postRoutes else []

/-- What a request should get: a redirect where its path is not clean or is a shared directory's without its slash;
    else the first of its method's routes that the path fits, with the values of the wildcards; else a refusal. -/
def plainDispatch (method : String) (u : RequestPath) : Dispatched :=
  let p := cleanPath u.escaped
  if p.text ≠ u.escaped ∨ (method = "GET" ∨ method = "HEAD") ∧ BareDirectory p then .redirect
  else
    match firstRoute (routesOf method) p with
    | some (r, values) => .serve r.handler values
    | none => .methodNotAllowed (["GET", "HEAD"] ++ if (firstRoute postRoutes p).isSome then ["POST"] else [])

theorem Mux.matches_eq (m : Mux) (method : String) (p : CleanPath) :
    m.matches method p = firstRoute (routesOf method) p := by
  unfold Mux.matches routesOf
  split
  · exact m.matchIn_get p
  · split
    · exact matchIn_post p
    · rfl

theorem Mux.redirectsBelow_iff (m : Mux) (method target : String) :
    m.redirectsBelow method (cleanPath target) = true ↔
      (method = "GET" ∨ method = "HEAD") ∧ BareDirectory (cleanPath target) := by
  rw [Mux.redirectsBelow, m.matches_eq, m.matches_eq, Bool.and_eq_true, Bool.and_eq_true, Bool.not_eq_true',
    Bool.not_eq_true']
  constructor
  · rintro ⟨⟨_, hslash⟩, hbelow⟩
    by_cases hget : method = "GET" ∨ method = "HEAD"
    · rw [routesOf, if_pos hget] at hbelow
      exact ⟨hget, bareDirectory_of_exact hslash hbelow⟩
    · have hnone : firstRoute (routesOf method) (cleanPath target).below = none := by
        rw [routesOf, if_neg hget]
        split
        · exact firstRoute_post_below _
        · rfl
      rw [hnone] at hbelow
      cases hbelow
  · rintro ⟨hget, hbare⟩
    rw [routesOf, if_pos hget]
    exact ⟨⟨(exact_of_bareDirectory hbare).1, hbare.1⟩, (exact_of_bareDirectory hbare).2⟩

/-- **Dispatch is exact.** Whatever the order in which the routes were registered, every request gets what trying
    the routes one by one, in the source's order, would give it; no path is unknown. -/
theorem findHandler_eq_plain (m : Mux) (method : String) (u : RequestPath) :
    m.findHandler method u = plainDispatch method u := by
  simp only [Mux.findHandler, plainDispatch, m.redirectsBelow_iff, m.matches_eq]
  by_cases hbare : (method = "GET" ∨ method = "HEAD") ∧ BareDirectory (cleanPath u.escaped)
  · rw [if_pos hbare, if_pos (.inr hbare)]
  rw [if_neg hbare]
  by_cases hclean : (cleanPath u.escaped).text ≠ u.escaped
  · rw [if_pos hclean, if_pos (.inl hclean)]
  rw [if_neg hclean, if_neg (not_or.mpr ⟨hclean, hbare⟩)]
  cases firstRoute (routesOf method) (cleanPath u.escaped) with
  | some _ => rfl
  | none =>
      dsimp only
      rw [m.matchingMethods_eq, if_pos (by simp)]

/-! ## Paths of names -/

/-- The path that goes down some names. -/
def pathOf (names : List String) : String := CleanPath.text { segs := names, slash := false }

theorem toList_text (p : CleanPath) : p.text.toList
    = '/' :: ['/'].intercalate (p.segs.map String.toList) ++ if p.slash && !p.segs.isEmpty then ['/'] else [] :=
  String.toList_ofList

theorem toList_pathOf (names : List String) : (pathOf names).toList = '/' :: ['/'].intercalate (names.map String.toList) :=
  (toList_text _).trans (List.append_nil _)

theorem split_pathOf {names : List String} (hne : names ≠ []) (h : ∀ name ∈ names, '/' ∉ name.toList) :
    FilePath.split (pathOf names) = "" :: names := by
  have hsplit : (['/'].intercalate (names.map String.toList)).splitOn '/' = names.map String.toList :=
    List.splitOn_intercalate '/' (by simpa using h) (by simpa using hne)
  rw [FilePath.split, toList_pathOf, List.splitOn_cons_eq_if_modifyHead, if_pos (by rfl), hsplit, List.map_cons, List.map_map]
  simp

/-- The last character of a path of names is not a slash. -/
theorem getLast_pathOf : ∀ {names : List String}, names ≠ [] → (∀ name ∈ names, FilePath.IsName name) →
    (pathOf names).toList.getLast? ≠ some '/' := by
  intro names hne h
  rw [toList_pathOf]
  induction names with
  | nil => exact absurd rfl hne
  | cons name names ih =>
      have hname := h name List.mem_cons_self
      cases names with
      | nil =>
          obtain ⟨c, cs, hc⟩ := List.exists_cons_of_ne_nil (l := name.toList) fun he => hname.ne_empty (by simpa using he)
          rw [List.map_singleton, List.intercalate_singleton, hc, List.getLast?_cons_cons, ← hc]
          exact fun hlast => hname.no_slash (List.mem_of_getLast? hlast)
      | cons next rest =>
          have hrest := ih (by simp) fun n hn => h n (List.mem_cons_of_mem _ hn)
          rw [List.map_cons, List.intercalate_cons_of_ne_nil (by simp), List.append_assoc, ← List.cons_append,
            List.getLast?_append, List.singleton_append]
          intro hlast
          rcases Option.or_eq_some_iff.mp hlast with hlast | ⟨hnone, _⟩
          · exact hrest hlast
          · exact List.cons_ne_nil _ _ (List.getLast?_eq_none_iff.mp hnone)

/-- **A path of names is clean.** -/
theorem cleanPath_pathOf {names : List String} (hne : names ≠ []) (h : ∀ name ∈ names, FilePath.IsName name) :
    cleanPath (pathOf names) = { segs := names, slash := false } := by
  have hclean : FilePath.clean true (FilePath.split (pathOf names)) = names := by
    rw [split_pathOf hne fun name hname => (h name hname).no_slash]
    exact FilePath.clean_of_names true h
  have hlast := getLast_pathOf hne h
  simp [cleanPath, hclean, hne, hlast]

/-! ## The shared modules -/

def hasSuffix (p : Bytes) (suffix : String) : Bool := (utf8 suffix.toList).isSuffixOf p

/-- `contentTypeFor`. -/
def contentTypeFor (p : Bytes) : String :=
  if hasSuffix p ".html" then "text/html; charset=utf-8"
  else if hasSuffix p ".css" then "text/css; charset=utf-8"
  else if hasSuffix p ".js" || hasSuffix p ".mjs" then "application/javascript; charset=utf-8"
  else if hasSuffix p ".json" then "application/json; charset=utf-8"
  else if hasSuffix p ".svg" then "image/svg+xml"
  else if hasSuffix p ".png" then "image/png"
  else if hasSuffix p ".woff2" then "font/woff2"
  else "application/octet-stream"

inductive FileReply where
  | notFound
  | ok (contentType : String) (data : Bytes)
deriving DecidableEq, Repr

/-- `strings.TrimPrefix(path, "/")`. -/
def trimSlash : Bytes → Bytes
  | 47 :: p => p
  | p => p

/-- `handleShared`; `asset` is `nexusweb.Asset`, of a package that is not in this repository. -/
def handleShared (asset : Bytes → Option Bytes) (path : Bytes) : FileReply :=
  let p := trimSlash path
  if p = [] ∨ utf8 "..".toList <:+: p then .notFound
  else
    match asset p with
    | none => .notFound
    | some data => .ok (contentTypeFor p) data

/-- A name in the part of the Nexus tree that the playground shares: under one of three directories, or the
    stylesheet, and with no way up. -/
structure SharedName (name : Bytes) : Prop where
  place : name = utf8 "styles.css".toList ∨
    ∃ dir ∈ ["lib", "components", "cinema-core"], utf8 dir.toList ++ [47] <+: name
  no_way_up : ¬utf8 "..".toList <:+: name

theorem shared_routes : ∀ method, ∀ r ∈ routesOf method, r.handler = .shared →
    r.subtree = true ∧ r.segs ∈ [[lit "lib"], [lit "components"], [lit "cinema-core"]] ∨
      r.subtree = false ∧ r.segs = [lit "styles.css"] := by
  have hget : ∀ r ∈ getRoutes, r.handler = .shared →
      r.subtree = true ∧ r.segs ∈ [[lit "lib"], [lit "components"], [lit "cinema-core"]] ∨
        r.subtree = false ∧ r.segs = [lit "styles.css"] := by decide +kernel
  have hpost : ∀ r ∈ postRoutes, r.handler ≠ .shared := by decide
  intro method r hr hshared
  unfold routesOf at hr
  split at hr
  · exact hget r hr hshared
  · split at hr
    · exact absurd hshared (hpost r hr)
    · cases hr

theorem pathUnescape_eq {seg : String} {bs : Bytes} (h : decode seg.toList = some bs) : pathUnescape seg = bs := by
  rw [pathUnescape, h, Option.getD_some]

/-- The path of a request after the slash in front. -/
theorem RequestPath.path_eq {u : RequestPath} {cs : List Char} (h : u.escaped.toList = '/' :: cs) :
    ∃ bs, decode cs = some bs ∧ u.path = 47 :: bs := by
  have hdec := u.decodes
  rw [h, decode_cons (by decide)] at hdec
  obtain ⟨bs, hbs, heq⟩ := Option.map_eq_some_iff.mp hdec
  exact ⟨bs, hbs, heq.symm⟩

/-- What a clean path of one segment decodes to. -/
theorem path_of_single {u : RequestPath} {seg : String} (hclean : (cleanPath u.escaped).text = u.escaped)
    (hsegs : (cleanPath u.escaped).segs = [seg]) (hslash : (cleanPath u.escaped).slash = false) :
    u.path = 47 :: pathUnescape seg := by
  have htext := toList_text (cleanPath u.escaped)
  rw [hclean, hsegs, hslash, List.map_singleton, List.intercalate_singleton] at htext
  obtain ⟨bs, hbs, hpath⟩ := u.path_eq (htext.trans (List.append_nil _))
  rw [hpath, pathUnescape_eq hbs]

/-- **A segment stays a segment**: a clean path that goes on after its first segment decodes to that segment's
    bytes, a slash, and more. -/
theorem path_of_first {u : RequestPath} {seg : String} {segs : List String}
    (hclean : (cleanPath u.escaped).text = u.escaped) (hsegs : (cleanPath u.escaped).segs = seg :: segs)
    (hmore : segs ≠ [] ∨ (cleanPath u.escaped).slash = true) :
    ∃ rest, u.path = 47 :: (pathUnescape seg ++ 47 :: rest) := by
  have htext := toList_text (cleanPath u.escaped)
  obtain ⟨more, hmore⟩ : ∃ more, u.escaped.toList = '/' :: (seg.toList ++ '/' :: more) := by
    rw [hclean, hsegs] at htext
    cases segs with
    | nil =>
        have hslash := hmore.resolve_left fun h => h rfl
        rw [hslash] at htext
        exact ⟨[], by simpa using htext⟩
    | cons t ts =>
        rw [List.map_cons, List.map_cons, List.intercalate_cons_cons] at htext
        exact ⟨_, by simpa only [List.cons_append, List.append_assoc, List.nil_append] using htext⟩
  obtain ⟨bs, hbs, hpath⟩ := u.path_eq hmore
  obtain ⟨xs, ys, hxs, _, rfl⟩ := decode_slash hbs
  exact ⟨ys, by rw [hpath, pathUnescape_eq hxs]⟩

/-- What `findHandler` serves has a clean path, and fits one of the routes. -/
theorem Mux.serve_cases {m : Mux} {method : String} {u : RequestPath} {h : Handler} {vs : List Bytes}
    (hserve : m.findHandler method u = .serve h vs) : (cleanPath u.escaped).text = u.escaped ∧
      ∃ r ∈ routesOf method, r.handler = h ∧
        r.captures isSegment (cleanPath u.escaped).values (cleanPath u.escaped).slash = some vs := by
  rw [findHandler_eq_plain, plainDispatch] at hserve
  by_cases hred : (cleanPath u.escaped).text ≠ u.escaped ∨
      (method = "GET" ∨ method = "HEAD") ∧ BareDirectory (cleanPath u.escaped)
  · rw [if_pos hred] at hserve
    cases hserve
  rw [if_neg hred] at hserve
  refine ⟨not_not.mp fun h => hred (.inl h), ?_⟩
  cases hfirst : firstRoute (routesOf method) (cleanPath u.escaped) with
  | none => rw [hfirst] at hserve; cases hserve
  | some found =>
      rw [hfirst] at hserve
      obtain ⟨r, vs'⟩ := found
      obtain ⟨rfl, rfl⟩ := Dispatched.serve.inj hserve
      exact ⟨r, (firstRoute_mem hfirst).1, rfl, (firstRoute_mem hfirst).2⟩

/-- The names that the mux hands to `handleShared`. -/
theorem shared_place {m : Mux} {method : String} {u : RequestPath} {vs : List Bytes}
    (hserve : m.findHandler method u = .serve .shared vs) :
    ∃ name, u.path = 47 :: name ∧ (name = utf8 "styles.css".toList ∨
      ∃ dir ∈ ["lib", "components", "cinema-core"], utf8 dir.toList ++ [47] <+: name) := by
  obtain ⟨hclean, r, hr, hshared, hcap⟩ := m.serve_cases hserve
  rw [Pattern.captures] at hcap
  cases hsegs : (cleanPath u.escaped).segs with
  | nil =>
      rw [CleanPath.values, hsegs] at hcap
      rcases shared_routes method r hr hshared with ⟨_, hdir⟩ | ⟨_, hstyles⟩
      · simp only [List.mem_cons, List.not_mem_nil, or_false] at hdir
        rcases hdir with h | h | h <;> rw [h] at hcap <;> cases hcap
      · rw [hstyles] at hcap; cases hcap
  | cons seg segs =>
      rw [CleanPath.values, hsegs, List.map_cons] at hcap
      rcases shared_routes method r hr hshared with ⟨hsub, hdir⟩ | ⟨hsub, hstyles⟩
      · obtain ⟨dir, hmem, hdir⟩ : ∃ dir ∈ ["lib", "components", "cinema-core"], r.segs = [lit dir] := by
          simpa using hdir
        rw [hdir, hsub, lit, captures] at hcap
        split at hcap
        · rename_i hseg
          obtain ⟨rest, hpath⟩ := path_of_first hclean hsegs (by
            by_contra hnone
            obtain ⟨hnil, hslash⟩ := not_or.mp hnone
            rw [not_not.mp hnil, Bool.eq_false_iff.mpr hslash] at hcap
            cases hcap)
          exact ⟨_, hpath, .inr ⟨dir, hmem, rest, by rw [hseg, List.append_assoc]; rfl⟩⟩
        · cases hcap
      · rw [hstyles, hsub, lit, captures] at hcap
        split at hcap
        · rename_i hseg
          cases segs with
          | cons _ _ => cases hcap
          | nil =>
              cases hslash : (cleanPath u.escaped).slash with
              | true => rw [hslash] at hcap; cases hcap
              | false => exact ⟨_, path_of_single hclean hsegs hslash, .inl hseg.symm⟩
        · cases hcap

/-- **Nothing but the shared modules leaves the Nexus tree.** Whatever a request that the mux hands to
    `handleShared` asks for, escaped in whatever way, the reply is data of a shared name under that name's type, and
    the rest of the tree has no say in it. -/
theorem shared_contained {m : Mux} {method : String} {u : RequestPath} {vs : List Bytes}
    (hserve : m.findHandler method u = .serve .shared vs) (asset : Bytes → Option Bytes) :
    (∀ type data, handleShared asset u.path = .ok type data →
      ∃ name, SharedName name ∧ u.path = 47 :: name ∧ asset name = some data ∧ type = contentTypeFor name) ∧
    ∀ asset' : Bytes → Option Bytes, (∀ name, SharedName name → asset' name = asset name) →
      handleShared asset' u.path = handleShared asset u.path := by
  obtain ⟨name, hpath, hplace⟩ := shared_place hserve
  rw [hpath]
  by_cases hbad : name = [] ∨ utf8 "..".toList <:+: name
  · have hnot : ∀ asset, handleShared asset (47 :: name) = .notFound := fun asset => if_pos hbad
    exact ⟨fun type data hok => (by rw [hnot] at hok; cases hok), fun asset' _ => (hnot asset').trans (hnot asset).symm⟩
  · have hname : SharedName name := ⟨hplace, fun h => hbad (.inr h)⟩
    have hreply : ∀ asset : Bytes → Option Bytes, handleShared asset (47 :: name)
        = (asset name).elim .notFound (.ok (contentTypeFor name)) := by
      intro asset
      rw [handleShared, trimSlash, if_neg hbad]
      cases asset name <;> rfl
    refine ⟨fun type data hok => ?_, fun asset' hagree => by rw [hreply, hreply, hagree name hname]⟩
    rw [hreply] at hok
    cases hdata : asset name with
    | none => rw [hdata] at hok; cases hok
    | some data' =>
        rw [hdata] at hok
        cases hok
        exact ⟨name, hname, rfl, hdata, rfl⟩

/-- The mux in the order of the source. -/
def sampleMux : Mux := { get := getRoutes, perm := .refl _ }

/-- A shared module, with one of its characters escaped. -/
def sampleModule : RequestPath :=
  { path := utf8 "/lib/dom.js".toList, escaped := "/lib/d%6Fm.js", decodes := by decide +kernel }

theorem shared_contained_module : sampleMux.findHandler "GET" sampleModule = .serve .shared [] ∧
    ∃ name, SharedName name ∧ sampleModule.path = 47 :: name ∧ contentTypeFor name = "application/javascript; charset=utf-8" := by
  have hserve : sampleMux.findHandler "GET" sampleModule = .serve .shared [] := by
    rw [findHandler_eq_plain]
    decide +kernel
  have hok : handleShared (fun _ => some [1]) sampleModule.path = .ok "application/javascript; charset=utf-8" [1] := by
    decide +kernel
  obtain ⟨name, hname, hpath, _, htype⟩ := (shared_contained hserve fun _ => some [1]).1 _ _ hok
  exact ⟨hserve, name, hname, hpath, htype.symm⟩

end Api
end InfrixPlayground
