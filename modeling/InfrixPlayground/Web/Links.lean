import InfrixPlayground.Api.Routes
import InfrixPlayground.Api.RunManager
import InfrixPlayground.Web.Router
import Mathlib.Data.List.DropRight

/-!
# `Web.Links` — the links that the page makes

The page writes the id of a run or a receipt into the paths it asks for, escaped by `encodeURIComponent`; and, as it
is, behind the hash that it goes on to or gives away as a share link. Between page and server the browser resolves
the dot segments of a path, and the server cleans what it gets. `links_reach`: the three paths reach their handlers
with just that id, for every id but four. `hash_links_open`: a hash opens the receipt of its id exactly if the id
has nothing in it that a link drops or reads as an escape. What `Put` derives is such an id.
-/

namespace InfrixPlayground
namespace Web

open Api Worker Machine PercentCoding

/-! ## Paths -/

/-- The bytes that `encodeURIComponent` writes as they are. -/
def isUnreserved (b : UInt8) : Bool :=
  (48 ≤ b && b ≤ 57) || (65 ≤ b && b ≤ 90) || (97 ≤ b && b ≤ 122) || b ∈ utf8 "-_.!~*'()".toList

def encodeURIComponent (s : String) : String := String.ofList (encode isUnreserved (utf8 s.toList))

def receiptLink (id : String) : String := "/api/receipts/" ++ encodeURIComponent id

def bundleLink (id : String) : String := "/api/receipts/" ++ encodeURIComponent id ++ "/bundle"

def eventsLink (id : String) : String := "/api/runs/" ++ encodeURIComponent id ++ "/events"

/-- The segments that stand for the place itself, and for the place above. -/
def singleDots : List String := [".", "%2e", "%2E"]

def doubleDots : List String := ["..", ".%2e", ".%2E", "%2e.", "%2E.", "%2e%2e", "%2e%2E", "%2E%2e", "%2E%2E"]

/-- What the URL parser does with the segments of a path, the innermost first in the stack; a dot segment at the end
    leaves a slash. -/
def resolveSegs (stack : List String) : List String → List String
  | [] => stack.reverse
  | [seg] =>
    if seg ∈ doubleDots then ("" :: stack.tail).reverse
    else if seg ∈ singleDots then ("" :: stack).reverse
    else (seg :: stack).reverse
  | seg :: segs =>
    resolveSegs (if seg ∈ doubleDots then stack.tail else if seg ∈ singleDots then stack else seg :: stack) segs

/-- The path of the request for a link. -/
def requestTarget (link : String) : String := pathOf (resolveSegs [] (FilePath.split link).tail)

/-- A link gets a handler of the server, with an id as the value of its wildcard. -/
def Reaches (m : Mux) (link : String) (h : Handler) (id : String) : Prop :=
  ∃ u, parsePath (requestTarget link) = some u ∧ m.findHandler "GET" u = .serve h [utf8 id.toList]

/-! ## What is written -/

theorem isUnreserved_lt : ∀ n < 256, isUnreserved (UInt8.ofNat n) = true →
    n < 128 ∧ n ≠ 37 ∧ validEncoded [Char.ofNat n] = true ∧ Char.ofNat n ≠ '/' := by decide +kernel

theorem toList_encodeURIComponent (id : String) :
    (encodeURIComponent id).toList = encode isUnreserved (utf8 id.toList) := String.toList_ofList

/-- **The id comes back.** -/
theorem decode_encodeURIComponent (id : String) : decode (encodeURIComponent id).toList = some (utf8 id.toList) := by
  rw [toList_encodeURIComponent]
  refine decode_encode fun b _ hkeep => ?_
  have h := isUnreserved_lt b.toNat b.toNat_lt (by rwa [UInt8.ofNat_toNat])
  exact ⟨h.1, fun hb => h.2.1 (congrArg UInt8.toNat hb)⟩

theorem mem_encodeURIComponent {id : String} : ∀ c ∈ (encodeURIComponent id).toList, validEncoded [c] = true ∧ c ≠ '/' := by
  rw [toList_encodeURIComponent]
  refine mem_encode (by decide +kernel) (by decide +kernel) fun b hkeep => ?_
  exact (isUnreserved_lt b.toNat b.toNat_lt (by rwa [UInt8.ofNat_toNat])).2.2

/-- Only an id of dots is written as a dot segment, and only the empty one as nothing. -/
theorem encodeURIComponent_ne {id : String} {seg : String} {bs : List UInt8} (hdec : decode seg.toList = some bs)
    (hne : utf8 id.toList ≠ bs) : encodeURIComponent id ≠ seg := by
  rintro rfl
  rw [decode_encodeURIComponent] at hdec
  exact hne (Option.some.inj hdec)

/-! ## Reaching a handler -/

/-- A segment that goes through as it is written. -/
structure PlainSegment (seg : String) : Prop where
  name : FilePath.IsName seg
  no_dots : seg ∉ doubleDots ∧ seg ∉ singleDots
  valid : validEncoded seg.toList = true
  decodes : (decode seg.toList).isSome = true

/-- A path without dot segments is left as it is. -/
theorem resolveSegs_plain : ∀ {segs : List String} (stack : List String),
    (∀ seg ∈ segs, seg ∉ doubleDots ∧ seg ∉ singleDots) → resolveSegs stack segs = stack.reverse ++ segs
  | [], stack, _ => (List.append_nil _).symm
  | [seg], stack, h => by
      obtain ⟨hdouble, hsingle⟩ := h seg List.mem_cons_self
      rw [resolveSegs, if_neg hdouble, if_neg hsingle, List.reverse_cons]
  | seg :: next :: segs, stack, h => by
      obtain ⟨hdouble, hsingle⟩ := h seg List.mem_cons_self
      rw [resolveSegs, if_neg hdouble, if_neg hsingle,
        resolveSegs_plain (seg :: stack) fun s hs => h s (List.mem_cons_of_mem _ hs), List.reverse_cons,
        List.append_assoc, List.singleton_append]
      exact List.cons_ne_nil _ _

theorem requestTarget_pathOf {names : List String} (hne : names ≠ []) (h : ∀ name ∈ names, PlainSegment name) :
    requestTarget (pathOf names) = pathOf names := by
  rw [requestTarget, split_pathOf hne fun name hname => (h name hname).name.no_slash, List.tail_cons,
    resolveSegs_plain [] fun name hname => (h name hname).no_dots]
  rfl

/-- Such a path decodes. -/
theorem decode_names : ∀ {names : List String}, (∀ name ∈ names, PlainSegment name) →
    (decode (['/'].intercalate (names.map String.toList))).isSome = true
  | [], _ => rfl
  | [name], h => by
      rw [List.map_singleton, List.intercalate_singleton]
      exact (h name List.mem_cons_self).decodes
  | name :: next :: names, h => by
      obtain ⟨bs, hbs⟩ := Option.isSome_iff_exists.mp (h name List.mem_cons_self).decodes
      have hrest := decode_names fun n hn => h n (List.mem_cons_of_mem name hn)
      rw [List.map_cons] at hrest
      rw [List.map_cons, List.map_cons, List.intercalate_cons_cons, List.append_assoc, decode_append hbs,
        Option.isSome_map, List.singleton_append, decode_cons (by decide), Option.isSome_map]
      exact hrest

theorem validEncoded_append (cs ds : List Char) : validEncoded (cs ++ ds) = (validEncoded cs && validEncoded ds) :=
  List.all_append

theorem valid_names : ∀ {names : List String}, (∀ name ∈ names, PlainSegment name) →
    validEncoded (['/'].intercalate (names.map String.toList)) = true
  | [], _ => rfl
  | [name], h => by
      rw [List.map_singleton, List.intercalate_singleton]
      exact (h name List.mem_cons_self).valid
  | name :: next :: names, h => by
      have hrest := valid_names fun n hn => h n (List.mem_cons_of_mem name hn)
      rw [List.map_cons] at hrest
      rw [List.map_cons, List.map_cons, List.intercalate_cons_cons, validEncoded_append, validEncoded_append,
        (h name List.mem_cons_self).valid, hrest]
      rfl

/-- The server parses the path of names that it is asked for. -/
theorem parsePath_pathOf {names : List String} (h : ∀ name ∈ names, PlainSegment name) :
    ∃ u, parsePath (pathOf names) = some u ∧ u.escaped = pathOf names := by
  have hvalid : validEncoded (pathOf names).toList = true := by
    rw [toList_pathOf]
    exact valid_names h
  have hdecodes : (decode (pathOf names).toList).isSome = true := by
    rw [toList_pathOf, decode_cons (by decide), Option.isSome_map]
    exact decode_names h
  obtain ⟨path, hpath⟩ := Option.isSome_iff_exists.mp hdecodes
  refine ⟨⟨path, pathOf names, hpath⟩, ?_, rfl⟩
  unfold parsePath
  split
  · rename_i hnone
    cases hpath.symm.trans hnone
  · rename_i path' hpath'
    cases hpath.symm.trans hpath'
    rw [if_pos hvalid]

/-- **A path of plain segments gets the route it is written for**, if no route before it has a path in common with
    it. -/
theorem serves_at (m : Mux) {names : List String} (hlong : 1 < names.length) (h : ∀ name ∈ names, PlainSegment name)
    {n : Nat} {r : Api.Route} {vs : List GoText.Bytes} (hr : getRoutes[n]? = some r)
    (hapart : ∀ q ∈ getRoutes.take n, q.apart r = true)
    (hcap : r.captures isSegment (names.map pathUnescape) false = some vs) :
    ∃ u, parsePath (requestTarget (pathOf names)) = some u ∧ m.findHandler "GET" u = .serve r.handler vs := by
  have hne : names ≠ [] := List.ne_nil_of_length_pos (Nat.lt_trans Nat.zero_lt_one hlong)
  obtain ⟨u, hparse, hescaped⟩ := parsePath_pathOf h
  have hclean := cleanPath_pathOf hne fun name hname => (h name hname).name
  refine ⟨u, by rw [requestTarget_pathOf hne h, hparse], ?_⟩
  have hbare : ¬ BareDirectory (cleanPath u.escaped) := by
    rintro ⟨_, hvalues⟩
    rw [hescaped, hclean] at hvalues
    have hlen : (names.map pathUnescape).length = 1 := by
      simp only [CleanPath.values, List.mem_cons, List.not_mem_nil, or_false] at hvalues
      rcases hvalues with hv | hv | hv <;> rw [hv] <;> rfl
    rw [List.length_map] at hlen
    omega
  have hfirst : firstRoute (routesOf "GET") (cleanPath u.escaped) = some (r, vs) := by
    rw [hescaped, hclean]
    exact ServeMux.firstMatch_at isSegment hr hapart hcap
  have htext : (cleanPath u.escaped).text = u.escaped := by
    rw [hescaped, hclean]
    rfl
  rw [findHandler_eq_plain, plainDispatch]
  simp only [hfirst]
  rw [if_neg (not_or.mpr ⟨not_not.mpr htext, fun h => hbare h.2⟩)]

/-- What the mux does with a link it does not serve as asked. -/
theorem not_reaches {m : Mux} {link : String} {h : Handler} {id : String}
    (hplain : (parsePath (requestTarget link)).map (plainDispatch "GET") ≠ some (.serve h [utf8 id.toList])) :
    ¬ Reaches m link h id := by
  rintro ⟨u, hparse, hfind⟩
  apply hplain
  rw [hparse, Option.map_some, ← findHandler_eq_plain m, hfind]

/-- The ids whose links go astray: nothing is written, the parser or the server resolves the segment, or it
    decodes to the slash that ends a path. -/
def strays : List String := ["", ".", "..", "/"]

theorem strays_go_astray : ∀ id ∈ strays,
    (parsePath (requestTarget (receiptLink id))).map (plainDispatch "GET") ≠ some (.serve .getReceipt [utf8 id.toList]) ∧
    (parsePath (requestTarget (bundleLink id))).map (plainDispatch "GET") ≠ some (.serve .getBundle [utf8 id.toList]) ∧
    (parsePath (requestTarget (eventsLink id))).map (plainDispatch "GET") ≠ some (.serve .runEvents [utf8 id.toList]) := by
  decide +kernel

theorem decode_doubleDots : ∀ seg ∈ doubleDots, decode seg.toList = some (utf8 "..".toList) := by decide +kernel

theorem decode_singleDots : ∀ seg ∈ singleDots, decode seg.toList = some (utf8 ".".toList) := by decide +kernel

/-- **Every other id is a plain segment**, once escaped. -/
theorem plain_encodeURIComponent {id : String} (h : id ∉ strays) : PlainSegment (encodeURIComponent id) := by
  simp only [strays, List.mem_cons, List.not_mem_nil, or_false, not_or] at h
  obtain ⟨hempty, hdot, hdots, _⟩ := h
  have hne : ∀ {s : String} {seg : String}, id ≠ s → decode seg.toList = some (utf8 s.toList) →
      encodeURIComponent id ≠ seg := fun hs hdec => encodeURIComponent_ne hdec fun heq => hs (utf8_inj heq)
  exact
    { name :=
        { ne_empty := hne hempty rfl
          ne_dot := hne hdot (by decide)
          ne_dotdot := hne hdots (by decide)
          no_slash := fun hmem => (mem_encodeURIComponent _ hmem).2 rfl }
      no_dots := ⟨fun hmem => hne hdots (decode_doubleDots _ hmem) rfl, fun hmem => hne hdot (decode_singleDots _ hmem) rfl⟩
      valid := List.all_eq_true.mpr fun c hc => by
        have hvalid := (mem_encodeURIComponent c hc).1
        rwa [validEncoded, List.all_cons, List.all_nil, Bool.and_true] at hvalid
      decodes := by rw [decode_encodeURIComponent]; rfl }

/-- The segments that the page writes itself. -/
def words : List String := ["api", "receipts", "bundle", "runs", "events"]

theorem plain_words : ∀ name ∈ words, pathUnescape name = utf8 name.toList ∧ validEncoded name.toList = true ∧
    (decode name.toList).isSome = true ∧ name ∉ doubleDots ∧ name ∉ singleDots ∧ name ≠ "" ∧ '/' ∉ name.toList := by
  decide +kernel

theorem plain_word {name : String} (h : name ∈ words) : PlainSegment name := by
  obtain ⟨_, hvalid, hdecodes, hdouble, hsingle, hempty, hslash⟩ := plain_words name h
  exact
    { name :=
        { ne_empty := hempty
          ne_dot := by rintro rfl; exact hsingle (by decide)
          ne_dotdot := by rintro rfl; exact hdouble (by decide)
          no_slash := hslash }
      no_dots := ⟨hdouble, hsingle⟩
      valid := hvalid
      decodes := hdecodes }

/-- The path to an id between words captures the id. -/
theorem captures_id {id : String} (h : id ∉ strays) {before after : List String}
    (hwords : ∀ name ∈ before ++ after, name ∈ words) (handler : Handler) :
    (⟨before.map lit ++ idSegment :: after.map lit, false, handler⟩ : Api.Route).captures isSegment
      ((before ++ encodeURIComponent id :: after).map pathUnescape) false = some [utf8 id.toList] := by
  have hunescape : ∀ {names : List String}, (∀ name ∈ names, name ∈ words) →
      names.map pathUnescape = names.map fun name => utf8 name.toList := fun hnames =>
    List.map_congr_left fun name hname => (plain_words name (hnames name hname)).1
  have hlit : ∀ names : List String, names.map lit = (names.map fun name => utf8 name.toList).map some := fun names =>
    List.map_map.symm
  have hwild : isSegment (utf8 id.toList) = true := by
    refine decide_eq_true fun hslash => h ?_
    have hid : id = "/" := utf8_inj hslash
    rw [hid]
    decide
  rw [List.map_append, List.map_cons, hunescape fun name hname => hwords name (List.mem_append_left _ hname),
    hunescape fun name hname => hwords name (List.mem_append_right _ hname),
    pathUnescape_eq (decode_encodeURIComponent id), ServeMux.Pattern.captures, hlit, hlit, ServeMux.captures_literals,
    idSegment, ServeMux.captures, if_pos hwild]
  have hend := ServeMux.captures_literals isSegment (after.map fun name => utf8 name.toList) [] false [] false
  rw [List.append_nil, List.append_nil] at hend
  rw [hend]
  rfl

/-- **A link that writes an id between words reaches its handler.** -/
theorem reaches_at (m : Mux) {id : String} (h : id ∉ strays) {link : String} (before after : List String) (n : Nat)
    (hlink : link = pathOf (before ++ encodeURIComponent id :: after)) (hne : before ≠ [])
    (hwords : ∀ name ∈ before ++ after, name ∈ words) {handler : Handler}
    (hr : getRoutes[n]? = some ⟨before.map lit ++ idSegment :: after.map lit, false, handler⟩)
    (hapart : ∀ q ∈ getRoutes.take n, q.apart ⟨before.map lit ++ idSegment :: after.map lit, false, handler⟩ = true) :
    Reaches m link handler id := by
  rw [hlink]
  refine serves_at m ?_ (fun name hname => ?_) hr hapart (captures_id h hwords handler)
  · have hpos := List.length_pos_iff.mpr hne
    rw [List.length_append, List.length_cons]
    omega
  · rcases List.mem_append.mp hname with hname | hname
    · exact plain_word (hwords name (List.mem_append_left _ hname))
    · rcases List.mem_cons.mp hname with rfl | hname
      · exact plain_encodeURIComponent h
      · exact plain_word (hwords name (List.mem_append_right _ hname))

theorem receiptLink_eq (id : String) : receiptLink id = pathOf ["api", "receipts", encodeURIComponent id] := by
  have hstart : "/api/receipts/".toList = '/' :: ("api".toList ++ '/' :: ("receipts".toList ++ ['/'])) := by decide
  apply String.toList_inj.mp
  rw [toList_pathOf, receiptLink, String.toList_append, hstart]
  simp only [List.map_cons, List.map_nil, List.intercalate_cons_cons, List.intercalate_singleton, List.append_assoc,
    List.cons_append, List.nil_append]

theorem bundleLink_eq (id : String) : bundleLink id = pathOf ["api", "receipts", encodeURIComponent id, "bundle"] := by
  have hstart : "/api/receipts/".toList = '/' :: ("api".toList ++ '/' :: ("receipts".toList ++ ['/'])) := by decide
  have hend : "/bundle".toList = '/' :: "bundle".toList := by decide
  apply String.toList_inj.mp
  rw [toList_pathOf, bundleLink, String.toList_append, String.toList_append, hstart, hend]
  simp only [List.map_cons, List.map_nil, List.intercalate_cons_cons, List.intercalate_singleton, List.append_assoc,
    List.cons_append, List.nil_append]

theorem eventsLink_eq (id : String) : eventsLink id = pathOf ["api", "runs", encodeURIComponent id, "events"] := by
  have hstart : "/api/runs/".toList = '/' :: ("api".toList ++ '/' :: ("runs".toList ++ ['/'])) := by decide
  have hend : "/events".toList = '/' :: "events".toList := by decide
  apply String.toList_inj.mp
  rw [toList_pathOf, eventsLink, String.toList_append, String.toList_append, hstart, hend]
  simp only [List.map_cons, List.map_nil, List.intercalate_cons_cons, List.intercalate_singleton, List.append_assoc,
    List.cons_append, List.nil_append]

/-- The links of every other id reach their handlers. -/
theorem reaches_of_not_stray (m : Mux) {id : String} (h : id ∉ strays) :
    Reaches m (receiptLink id) .getReceipt id ∧ Reaches m (bundleLink id) .getBundle id ∧
      Reaches m (eventsLink id) .runEvents id :=
  ⟨reaches_at m h ["api", "receipts"] [] 8 (receiptLink_eq id) nofun (by decide) rfl (by decide +kernel),
    reaches_at m h ["api", "receipts"] ["bundle"] 9 (bundleLink_eq id) nofun (by decide) rfl (by decide +kernel),
    reaches_at m h ["api", "runs"] ["events"] 7 (eventsLink_eq id) nofun (by decide) rfl (by decide +kernel)⟩

/-- **The paths that the page asks for reach their handlers**, whatever the order of registration, each with the id
    it was written with, exactly if the id is not one of four. -/
theorem links_reach (m : Mux) (id : String) :
    (Reaches m (receiptLink id) .getReceipt id ↔ id ∉ strays) ∧
      (Reaches m (bundleLink id) .getBundle id ↔ id ∉ strays) ∧
      (Reaches m (eventsLink id) .runEvents id ↔ id ∉ strays) := by
  refine ⟨⟨fun h hmem => ?_, fun h => (reaches_of_not_stray m h).1⟩,
    ⟨fun h hmem => ?_, fun h => (reaches_of_not_stray m h).2.1⟩,
    ⟨fun h hmem => ?_, fun h => (reaches_of_not_stray m h).2.2⟩⟩
  · exact not_reaches (strays_go_astray id hmem).1 h
  · exact not_reaches (strays_go_astray id hmem).2.1 h
  · exact not_reaches (strays_go_astray id hmem).2.2 h

/-! ## Hashes -/

/-- The bytes that the URL parser writes into a fragment as they are. -/
def isFragmentByte (b : UInt8) : Bool := 32 < b && b < 127 && b ∉ utf8 "\"<>`".toList

/-- What the URL parser drops wherever it stands. -/
def isTabOrNewline (c : Char) : Bool := c == '\t' || c == '\n' || c == '\r'

/-- What it drops at the ends of a link. -/
def isC0OrSpace (c : Char) : Bool := c.toNat ≤ 32

/-- The fragment that the URL parser makes of a text. -/
def fragment (cs : List Char) : List Char := encode isFragmentByte (utf8 (cs.filter fun c => !isTabOrNewline c))

/-- `location.hash` after the page has set it to `#/r/` and an id. -/
def hashSet (id : String) : String := String.ofList ('#' :: fragment ("/r/".toList ++ id.toList))

/-- `location.hash` of the page that the share link of an id opens. -/
def hashShared (id : String) : String :=
  String.ofList ('#' :: fragment (("/r/".toList ++ id.toList).rdropWhile isC0OrSpace))

theorem isFragmentByte_lt (b : UInt8) (h : isFragmentByte b = true) : b.toNat < 128 := by
  unfold isFragmentByte at h
  rw [Bool.and_eq_true, Bool.and_eq_true, decide_eq_true_eq, decide_eq_true_eq, UInt8.lt_iff_toNat_lt,
    UInt8.lt_iff_toNat_lt] at h
  exact Nat.lt_trans h.1.2 (by decide)

/-- The start of a receipt's hash is written as it is. -/
theorem fragment_receipt (cs : List Char) : fragment ("/r/".toList ++ cs) = '/' :: 'r' :: '/' :: fragment cs := by
  rw [fragment, List.filter_append, utf8_append, encode, List.flatMap_append]
  rfl

theorem dispatch_receipt (cs : List Char) : dispatch (String.ofList ('#' :: '/' :: 'r' :: '/' :: cs))
    = match decodeURIComponent (String.ofList cs) with
      | some id => .render (.receipt id)
      | none => .throws := by
  have hne : String.ofList ('#' :: '/' :: 'r' :: '/' :: cs) ≠ "" := by
    intro he
    have := congrArg String.toList he
    rw [String.toList_ofList] at this
    cases this
  rw [dispatch, hashPath, if_neg hne, String.toList_ofList]
  rfl

/-- What is left of an id opens its receipt exactly if all of it is left and no percent sign is in it. -/
theorem opens_iff {cs : List Char} {id : String} (hsub : cs.Sublist id.toList) :
    dispatch (String.ofList ('#' :: fragment ("/r/".toList ++ cs))) = .render (.receipt id) ↔
      (cs.filter fun c => !isTabOrNewline c) = id.toList ∧ '%' ∉ id.toList := by
  rw [fragment_receipt, dispatch_receipt, ← decode_encode_iff isFragmentByte_lt (by decide) (List.filter_sublist.trans hsub),
    decodeURIComponent, String.toList_ofList]
  constructor
  · intro h
    split at h
    · rename_i id' hdec
      cases h
      obtain ⟨bs, hbs, hutf8⟩ := Option.bind_eq_some_iff.mp hdec
      rw [fromUTF8_eq_some] at hutf8
      rw [← hutf8]
      exact hbs
    · cases h
  · intro h
    have hdec : (decode (fragment cs)).bind fromUTF8 = some id :=
      Option.bind_eq_some_iff.mpr ⟨_, h, fromUTF8_eq_some.mpr rfl⟩
    rw [hdec]

/-- The start of a receipt's hash is never trimmed. -/
theorem rdropWhile_receipt (cs : List Char) :
    ("/r/".toList ++ cs).rdropWhile isC0OrSpace = "/r/".toList ++ cs.rdropWhile isC0OrSpace := by
  have hstart : ("/r/".toList.reverse).dropWhile isC0OrSpace = "/r/".toList.reverse := by decide
  rw [List.rdropWhile, List.rdropWhile, List.reverse_append, List.dropWhile_append]
  split
  · rename_i hnil
    rw [List.isEmpty_iff.mp hnil, hstart]
    rfl
  · rw [List.reverse_append, List.reverse_reverse]

/-- Nothing in a text is a tab or a line break exactly if dropping them leaves it. -/
theorem filter_eq_iff (cs : List Char) :
    (cs.filter fun c => !isTabOrNewline c) = cs ↔ ∀ c ∈ cs, isTabOrNewline c = false := by
  rw [List.filter_eq_self]
  simp only [Bool.not_eq_true']

/-- Nothing ends a text that is trimmed exactly if trimming leaves it. -/
theorem rdropWhile_eq_iff (cs : List Char) :
    cs.rdropWhile isC0OrSpace = cs ↔ ∀ c, cs.getLast? = some c → isC0OrSpace c = false := by
  rw [List.rdropWhile_eq_self_iff]
  constructor
  · intro h c hc
    have hne : cs ≠ [] := by
      rintro rfl
      cases hc
    rw [List.getLast?_eq_some_getLast hne] at hc
    exact Option.some.inj hc ▸ Bool.eq_false_iff.mpr (h hne)
  · intro h hne
    exact Bool.eq_false_iff.mp (h _ (List.getLast?_eq_some_getLast hne))

/-- The hash that the page sets. -/
theorem hashSet_opens (id : String) : dispatch (hashSet id) = .render (.receipt id) ↔
    '%' ∉ id.toList ∧ ∀ c ∈ id.toList, isTabOrNewline c = false := by
  rw [hashSet, opens_iff (List.Sublist.refl _), filter_eq_iff, and_comm]

/-- The hash of a share link. -/
theorem hashShared_opens (id : String) : dispatch (hashShared id) = .render (.receipt id) ↔
    '%' ∉ id.toList ∧ (∀ c ∈ id.toList, isTabOrNewline c = false) ∧
      ∀ c, id.toList.getLast? = some c → isC0OrSpace c = false := by
  rw [hashShared, rdropWhile_receipt, opens_iff (List.rdropWhile_prefix _ _).sublist, ← filter_eq_iff,
    ← rdropWhile_eq_iff, and_comm]
  refine and_congr_right fun _ => ⟨fun h => ?_, fun ⟨h, htrim⟩ => by rw [htrim, h]⟩
  -- what is left after both is the whole id, so nothing went at either
  have hle : id.toList.length ≤ (id.toList.rdropWhile isC0OrSpace).length :=
    Nat.le_trans (Nat.le_of_eq (congrArg List.length h).symm) (List.length_filter_le _ _)
  have htrim := (List.rdropWhile_prefix isC0OrSpace id.toList).eq_of_length_le hle
  rw [htrim] at h
  exact ⟨h, htrim⟩

/-- **A hash opens the receipt of its id**, set by the page, exactly if the id has no percent sign, tab or line break
    in it; shared as a link, if besides no space or control character ends it. -/
theorem hash_links_open (id : String) :
    (dispatch (hashSet id) = .render (.receipt id) ↔
      '%' ∉ id.toList ∧ ∀ c ∈ id.toList, isTabOrNewline c = false) ∧
    (dispatch (hashShared id) = .render (.receipt id) ↔
      '%' ∉ id.toList ∧ (∀ c ∈ id.toList, isTabOrNewline c = false) ∧
        ∀ c, id.toList.getLast? = some c → isC0OrSpace c = false) :=
  ⟨hashSet_opens id, hashShared_opens id⟩

/-! ## The links of the runs -/

variable {X : Externals}

/-- A link can be made of this receipt id: its two paths reach their handlers, and its two hashes open its receipt. -/
structure Linked (mux : Mux) (id : String) : Prop where
  receipt : Reaches mux (receiptLink id) .getReceipt id
  bundle : Reaches mux (bundleLink id) .getBundle id
  set : dispatch (hashSet id) = .render (.receipt id)
  shared : dispatch (hashShared id) = .render (.receipt id)

theorem hexDigit_plain {c : Char} (h : GoText.IsHexDigit c) :
    c ≠ '%' ∧ isTabOrNewline c = false ∧ isC0OrSpace c = false := by
  have hall : "0123456789abcdef".toList.all (fun c => c != '%' && !isTabOrNewline c && !isC0OrSpace c) = true := by
    decide +kernel
  simpa [and_assoc] using List.all_eq_true.mp hall c h

/-- **Every id that `Put` derives can be linked.** -/
theorem linked_deriveID (mux : Mux) (receiptJSON : GoText.Bytes) : Linked mux (deriveID X receiptJSON) := by
  obtain ⟨hlen, hdigits⟩ := deriveID_digits (X := X) receiptJSON
  generalize deriveID X receiptJSON = id at hlen hdigits ⊢
  have hplain : ∀ c ∈ id.toList, c ≠ '%' ∧ isTabOrNewline c = false ∧ isC0OrSpace c = false := fun c hc =>
    hexDigit_plain (hdigits c hc)
  have hstray : id ∉ strays := by
    have hshort : ∀ s ∈ strays, s.toList.length ≠ 12 := by decide
    exact fun hmem => hshort id hmem hlen
  have hpercent : '%' ∉ id.toList := fun hmem => (hplain '%' hmem).1 rfl
  have hkept : ∀ c ∈ id.toList, isTabOrNewline c = false := fun c hc => (hplain c hc).2.1
  obtain ⟨hreceipt, hbundle, _⟩ := reaches_of_not_stray mux hstray
  exact
    { receipt := hreceipt
      bundle := hbundle
      set := (hashSet_opens id).mpr ⟨hpercent, hkept⟩
      shared := (hashShared_opens id).mpr ⟨hpercent, hkept, fun c hc => (hplain c (List.mem_of_getLast? hc)).2.2⟩ }

/-- The ids that a run's goroutine carries are derived ones: `execute` hands `Put` a run without an id. -/
structure Derives (t : Task X) : Prop where
  persisting : ∀ rec, t.ctl = .persisting rec → ∃ receiptJSON, rec.id = deriveID X receiptJSON
  finishing : ∀ id phase, t.ctl = .finishing (.ok id) phase → ∃ receiptJSON, id = deriveID X receiptJSON

theorem derives_ofRun (id : String) (mode : Mode) (flow : String) : Derives (.ofRun (.new id mode flow) : Task X) :=
  ⟨nofun, nofun⟩

theorem Derives.step {rn : Runner X} {t t' : Task X} {a : RunAction} (h : Derives t) (hs : TaskStep rn t a t') :
    Derives t' := by
  cases hs with
  | @inserted result now rec hc hp =>
      refine ⟨fun rec' hc' => ?_, nofun⟩
      cases hc'
      obtain ⟨run₀, _, receiptJSON, hrun, _, _, rfl⟩ := prepare_eq_ok hp
      cases hrun
      exact ⟨receiptJSON, rfl⟩
  | returned hc =>
      refine ⟨nofun, fun id phase hc' => ?_⟩
      cases hc'
      exact h.persisting _ hc
  | setResult hc => exact ⟨nofun, fun id phase hc' => by cases hc'; exact h.finishing _ _ hc⟩
  | setState hc => exact ⟨nofun, fun id phase hc' => by cases hc'; exact h.finishing _ _ hc⟩
  | publish hc => exact ⟨nofun, fun id phase hc' => by cases hc'; exact h.finishing _ _ hc⟩
  | subscribe => exact ⟨h.persisting, h.finishing⟩
  | unsub => exact ⟨h.persisting, h.finishing⟩
  | recv => exact ⟨h.persisting, h.finishing⟩
  | _ => exact ⟨nofun, nofun⟩

/-- The name of a run is no stray. -/
theorem runName_not_stray (n : Nat) : runName n ∉ strays := by
  have hshort : ∀ s ∈ strays, s.toList.length < 4 := by decide
  intro hmem
  have hlen := hshort _ hmem
  rw [runName, String.toList_append, List.length_append] at hlen
  exact Nat.not_lt.mpr (Nat.le_add_right 4 _) hlen

/-- **The links of the runs work.** At any moment of a manager, and however the server's routes were registered, the
    event stream of every run is reached under the run's name, and a complete run's receipt id is one that links can
    be made of. -/
theorem links_of_runs (mux : Mux) (rn : Runner X) (store : ReceiptStore X) {as : List ManagerAction} {m : RunManager X}
    (h : exec RunManager.step (newRunManager rn store) as = some m) :
    ∀ id t, m.runs.lookup id = some t → Reaches mux (eventsLink id) .runEvents id ∧
      (t.run.state = .complete → Linked mux t.run.receiptID) := by
  have hregistry : Registry m :=
    exec_invariant (fun _ _ _ hi hs => hi.step (manager_step hs)) as (registry_new rn store) h
  have hruns := allRuns_exec (P := fun t => Consistent t ∧ Derives t)
    (fun id mode flow => ⟨consistent_ofRun id mode flow, derives_ofRun id mode flow⟩)
    (fun hi hs => ⟨hi.1.step hs, hi.2.step hs⟩) h
  intro id t hl
  obtain ⟨hconsistent, hderives⟩ := hruns.runs id t hl
  refine ⟨?_, fun hstate => ?_⟩
  · obtain ⟨k, _, rfl⟩ := hregistry.runs_named id t hl
    exact (reaches_of_not_stray mux (runName_not_stray k)).2.2
  · have hctl : t.ctl.state = .complete := hconsistent.state.symm.trans hstate
    obtain ⟨out, hc⟩ := ctl_of_terminal (by rw [hctl]; rfl)
    cases out with
    | error e => rcases hc with hc | hc <;> rw [hc] at hctl <;> cases hctl
    | ok receiptID =>
        have hid : t.run.receiptID = receiptID := by
          rw [hconsistent.receiptID]
          rcases hc with hc | hc <;> rw [hc] <;> rfl
        obtain ⟨receiptJSON, hderived⟩ := hc.elim (hderives.finishing _ _) (hderives.finishing _ _)
        rw [hid, hderived]
        exact linked_deriveID mux receiptJSON

/-- The links of one anonymous run of the stand-in's server, at its end. -/
theorem links_of_runs_sample : ∃ m t,
    exec RunManager.step (newRunManager sampleNode { dir := "", runs := ∅ }) endedActions = some m ∧
    m.runs.lookup "run-1" = some t ∧ t.run.receiptID = "696e74656e74" ∧
    Reaches sampleMux (eventsLink "run-1") .runEvents "run-1" ∧ Linked sampleMux "696e74656e74" := by
  have hrun : (exec RunManager.step (newRunManager sampleNode { dir := "", runs := ∅ }) endedActions).map
      (fun m => (m.runs.lookup "run-1").map fun t => (t.run.state, t.run.receiptID))
        = some (some (.complete, "696e74656e74")) := by decide +kernel
  obtain ⟨m, hm, hlookup⟩ := Option.map_eq_some_iff.mp hrun
  obtain ⟨t, hl, hpair⟩ := Option.map_eq_some_iff.mp hlookup
  obtain ⟨hstate, hid⟩ := Prod.mk.inj hpair
  obtain ⟨hevents, hlinked⟩ := links_of_runs sampleMux sampleNode _ hm "run-1" t hl
  exact ⟨m, t, hm, hl, hid, hevents, hid ▸ hlinked hstate⟩

end Web
end InfrixPlayground
