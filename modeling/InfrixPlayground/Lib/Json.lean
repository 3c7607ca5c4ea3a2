import Mathlib.Data.List.Nodup
import Mathlib.Data.String.Basic
import InfrixPlayground.Lib.Decimal

/-!
# `Lib.Json` — JSON values, their texts, and the way there and back

Values as a script engine has them once `JSON.parse` is through: a name occurs once in an object, and the
order of its members means nothing, so they are kept in the order of their names (`Wf`). `print` is
`JSON.stringify` without spaces, `parse` is `JSON.parse`; every value comes back from its text
(`parse_print`), and whatever is parsed is a value (`parse_wf`). A surrogate on its own has no place in a
string here; it is read as the replacement character.
-/

/-! ## Members of an object, in the order of their names -/

namespace Members

variable {α : Type*}

/-- The value of a name. -/
def get (k : String) : List (String × α) → Option α
  | [] => none
  | (k', v) :: ms => if k = k' then some v else get k ms

/-- Set the value of a name. -/
def set (k : String) (v : α) : List (String × α) → List (String × α)
  | [] => [(k, v)]
  | (k', v') :: ms =>
    if k = k' then (k, v) :: ms
    else if k < k' then (k, v) :: (k', v') :: ms
    else (k', v') :: set k v ms

/-- Members one after the other; of one name, the last. -/
def ofList (ms : List (String × α)) : List (String × α) := ms.foldl (fun acc m => set m.1 m.2 acc) []

/-- The names go up. -/
def Sorted (ms : List (String × α)) : Prop := ms.Pairwise fun m m' => m.1 < m'.1

@[simp] theorem get_set_self (k : String) (v : α) (ms : List (String × α)) : get k (set k v ms) = some v := by
  fun_induction set k v ms <;> simp_all [get]

theorem get_set_ne {k k' : String} (h : k' ≠ k) (v : α) (ms : List (String × α)) :
    get k' (set k v ms) = get k' ms := by
  fun_induction set k v ms with
  | case1 => simp [get, h]
  | case2 v' ms => simp [get, h]
  | case3 k'' v' ms hne hlt => simp [get, h]
  | case4 k'' v' ms hne hlt ih => simp only [get, ih]

theorem mem_of_get {k : String} {v : α} {ms : List (String × α)} (h : get k ms = some v) : (k, v) ∈ ms := by
  fun_induction get k ms with
  | case1 => exact absurd h (by simp)
  | case2 v' ms => cases h; exact List.mem_cons_self
  | case3 k' v' ms hne ih => exact List.mem_cons_of_mem _ (ih h)

/-- Setting a name to the value it has changes nothing. -/
theorem set_eq_self {k : String} {v : α} {ms : List (String × α)} (hs : Sorted ms) (h : get k ms = some v) :
    set k v ms = ms := by
  induction ms with
  | nil => cases h
  | cons m ms ih =>
      obtain ⟨k', v'⟩ := m
      obtain ⟨hhead, htail⟩ := List.pairwise_cons.mp hs
      by_cases hk : k = k'
      · subst hk
        rw [get, if_pos rfl, Option.some.injEq] at h
        rw [set, if_pos rfl, h]
      · rw [get, if_neg hk] at h
        -- the name comes later, so it is no smaller
        have hlt : k' < k := hhead _ (mem_of_get h)
        rw [set, if_neg hk, if_neg (lt_asymm hlt), ih htail h]

theorem mem_set {k : String} {v : α} {ms : List (String × α)} {m : String × α} (h : m ∈ set k v ms) :
    m = (k, v) ∨ m ∈ ms := by
  fun_induction set k v ms with
  | case1 => exact .inl (List.mem_singleton.mp h)
  | case2 v' ms => rcases List.mem_cons.mp h with h | h
                   · exact .inl h
                   · exact .inr (List.mem_cons_of_mem _ h)
  | case3 k'' v' ms hne hlt => exact List.mem_cons.mp h
  | case4 k'' v' ms hne hlt ih =>
      rcases List.mem_cons.mp h with h | h
      · exact .inr (h ▸ List.mem_cons_self)
      · exact (ih h).imp_right (List.mem_cons_of_mem _)

theorem Sorted.set {k : String} {v : α} {ms : List (String × α)} (h : Sorted ms) :
    Sorted (Members.set k v ms) := by
  fun_induction Members.set k v ms with
  | case1 => exact List.pairwise_singleton _ _
  | case2 v' ms =>
      obtain ⟨hhead, htail⟩ := List.pairwise_cons.mp h
      exact List.pairwise_cons.mpr ⟨hhead, htail⟩
  | case3 k' v' ms hne hlt =>
      refine List.pairwise_cons.mpr ⟨fun m hm => ?_, h⟩
      rcases List.mem_cons.mp hm with rfl | hm
      · exact hlt
      · exact lt_trans hlt ((List.pairwise_cons.mp h).1 m hm)
  | case4 k' v' ms hne hlt ih =>
      obtain ⟨hhead, htail⟩ := List.pairwise_cons.mp h
      refine List.pairwise_cons.mpr ⟨fun m hm => ?_, ih htail⟩
      rcases mem_set hm with rfl | hm
      · exact lt_of_le_of_ne (not_lt.mp hlt) fun he => hne he.symm
      · exact hhead m hm

/-- A name behind all others goes to the end. -/
theorem set_append {k : String} (v : α) {ms : List (String × α)} (h : ∀ m ∈ ms, m.1 < k) :
    set k v ms = ms ++ [(k, v)] := by
  induction ms with
  | nil => rfl
  | cons m ms ih =>
      obtain ⟨k', v'⟩ := m
      have hlt : k' < k := h (k', v') List.mem_cons_self
      rw [set, if_neg hlt.ne', if_neg (lt_asymm hlt),
        ih fun m hm => h m (List.mem_cons_of_mem _ hm)]
      rfl

/-- **Members in order come out as they went in.** -/
theorem ofList_sorted {ms : List (String × α)} (h : Sorted ms) : ofList ms = ms := by
  have hgo : ∀ (ms acc : List (String × α)), Sorted (acc ++ ms) →
      ms.foldl (fun acc m => set m.1 m.2 acc) acc = acc ++ ms := by
    intro ms
    induction ms with
    | nil => intro acc _; rw [List.foldl_nil, List.append_nil]
    | cons m ms ih =>
        intro acc hs
        have hlast : ∀ m' ∈ acc, m'.1 < m.1 := fun m' hm' =>
          (List.pairwise_append.mp hs).2.2 m' hm' m List.mem_cons_self
        rw [List.foldl_cons, set_append m.2 hlast, ih _ (by rw [List.append_assoc]; exact hs),
          List.append_assoc]
        rfl
  exact hgo ms [] h

theorem ofList_concat (ms : List (String × α)) (m : String × α) :
    ofList (ms ++ [m]) = set m.1 m.2 (ofList ms) := by
  rw [ofList, List.foldl_append]; rfl

theorem sorted_ofList (ms : List (String × α)) : Sorted (ofList ms) := by
  induction ms using List.reverseRecOn with
  | nil => exact List.Pairwise.nil
  | append_singleton ms m ih => rw [ofList_concat]; exact ih.set

theorem mem_ofList {ms : List (String × α)} {m : String × α} (h : m ∈ ofList ms) : m ∈ ms := by
  induction ms using List.reverseRecOn with
  | nil => exact h
  | append_singleton ms m' ih =>
      rw [ofList_concat] at h
      rcases mem_set h with rfl | h
      · exact List.mem_append_right _ (List.mem_singleton.mpr rfl)
      · exact List.mem_append_left _ (ih h)

/-- Of names that occur once each, every one keeps its value. -/
theorem get_ofList_of_mem {k : String} {v : α} {ms : List (String × α)} (hn : (ms.map Prod.fst).Nodup)
    (h : (k, v) ∈ ms) : get k (ofList ms) = some v := by
  induction ms using List.reverseRecOn with
  | nil => exact absurd h List.not_mem_nil
  | append_singleton ms m ih =>
      rw [List.map_append, List.map_singleton, List.nodup_append] at hn
      rw [ofList_concat]
      rcases List.mem_append.mp h with h | h
      · have hne : k ≠ m.1 := hn.2.2 k (List.mem_map_of_mem h) m.1 (List.mem_singleton_self _)
        rw [get_set_ne hne]
        exact ih hn.1 h
      · rw [← List.mem_singleton.mp h, get_set_self]

theorem get_ofList_of_notMem {k : String} {ms : List (String × α)} (h : k ∉ ms.map Prod.fst) :
    get k (ofList ms) = none := by
  cases hget : get k (ofList ms) with
  | none => rfl
  | some v => exact absurd (List.mem_map_of_mem (mem_ofList (mem_of_get hget))) h

end Members

/-- A JSON value. -/
inductive Json where
  | null
  | bool (b : Bool)
  | num (n : Decimal)
  | str (s : String)
  | arr (xs : List Json)
  | obj (ms : List (String × Json))

namespace Json

/-- Every object has its members in order. -/
inductive Wf : Json → Prop where
  | null : Wf .null
  | bool (b : Bool) : Wf (.bool b)
  | num (n : Decimal) : Wf (.num n)
  | str (s : String) : Wf (.str s)
  | arr {xs : List Json} (h : ∀ x ∈ xs, Wf x) : Wf (.arr xs)
  | obj {ms : List (String × Json)} (hs : Members.Sorted ms) (h : ∀ m ∈ ms, Wf m.2) : Wf (.obj ms)

/-- An object literal: a member that is undefined is none of its members. -/
def ofFields (fs : List (String × Option Json)) : Json :=
  .obj (Members.ofList (fs.filterMap fun f => f.2.map fun v => (f.1, v)))

theorem mem_fields {fs : List (String × Option Json)} {m : String × Json} :
    m ∈ fs.filterMap (fun f => f.2.map fun v => (f.1, v)) ↔ (m.1, some m.2) ∈ fs := by
  rw [List.mem_filterMap]
  constructor
  · rintro ⟨⟨k, v⟩, hf, hm⟩
    obtain ⟨w, rfl, rfl⟩ := Option.map_eq_some_iff.mp hm
    exact hf
  · intro h; exact ⟨_, h, rfl⟩

/-- The value of each name of a literal. -/
theorem get_ofFields {fs : List (String × Option Json)} (hn : (fs.map Prod.fst).Nodup) {k : String}
    {v : Option Json} (h : (k, v) ∈ fs) :
    Members.get k (Members.ofList (fs.filterMap fun f => f.2.map fun v => (f.1, v))) = v := by
  have hsub : ((fs.filterMap fun f => f.2.map fun v => (f.1, v)).map Prod.fst).Sublist
      (fs.map Prod.fst) := by
    clear hn h
    induction fs with
    | nil => exact List.Sublist.slnil
    | cons f fs ih =>
        obtain ⟨k', v'⟩ := f
        cases v' with
        | none => exact ih.cons _
        | some w => exact ih.cons_cons _
  cases v with
  | some w => exact Members.get_ofList_of_mem (hn.sublist hsub) (mem_fields.mpr h)
  | none =>
      refine Members.get_ofList_of_notMem fun hk => ?_
      obtain ⟨⟨k', w⟩, hm, rfl⟩ := List.mem_map.mp hk
      -- the name would stand for two values
      have hw := mem_fields.mp hm
      have hsame : (k', (none : Option Json)) = (k', some w) := List.inj_on_of_nodup_map hn h hw rfl
      exact absurd hsame (by simp)

/-! ## Strings -/

/-- The character of a hexadecimal digit. -/
def hexDigit (n : Nat) : Char := "0123456789abcdef".toList.getD n '0'

/-- A character between quotes. -/
def quoteChar (c : Char) : List Char :=
  if c = '"' then ['\\', '"']
  else if c = '\\' then ['\\', '\\']
  else if c = '\x08' then ['\\', 'b']
  else if c = '\x0c' then ['\\', 'f']
  else if c = '\n' then ['\\', 'n']
  else if c = '\r' then ['\\', 'r']
  else if c = '\t' then ['\\', 't']
  else if c.toNat < 0x20 then ['\\', 'u', '0', '0', hexDigit (c.toNat / 16), hexDigit (c.toNat % 16)]
  else [c]

/-- A string between quotes. -/
def quote (s : String) : List Char := '"' :: (s.toList.flatMap quoteChar ++ ['"'])

/-- What a string is made of: characters, and the code units that were escaped. -/
inductive Piece where
  | char (c : Char)
  | unit (u : Nat)

/-- The value of a hexadecimal digit. -/
def hexVal (c : Char) : Option Nat :=
  if '0' ≤ c ∧ c ≤ '9' then some (c.toNat - '0'.toNat)
  else if 'a' ≤ c ∧ c ≤ 'f' then some (c.toNat - 'a'.toNat + 10)
  else if 'A' ≤ c ∧ c ≤ 'F' then some (c.toNat - 'A'.toNat + 10)
  else none

/-- Four hexadecimal digits. -/
def hex4 (a b c d : Char) : Option Nat :=
  match hexVal a, hexVal b, hexVal c, hexVal d with
  | some a, some b, some c, some d => some (((a * 16 + b) * 16 + c) * 16 + d)
  | _, _, _, _ => none

/-- What a single letter escapes. -/
def unescape (c : Char) : Option Char :=
  if c = '"' then some '"'
  else if c = '\\' then some '\\'
  else if c = '/' then some '/'
  else if c = 'b' then some '\x08'
  else if c = 'f' then some '\x0c'
  else if c = 'n' then some '\n'
  else if c = 'r' then some '\r'
  else if c = 't' then some '\t'
  else none

/-- The rest of a string, up to its closing quote. -/
def readPieces : List Char → Option (List Piece × List Char)
  | [] => none
  | '"' :: cs => some ([], cs)
  | '\\' :: 'u' :: a :: b :: c :: d :: cs =>
    match hex4 a b c d, readPieces cs with
    | some u, some (ps, cs) => some (.unit u :: ps, cs)
    | _, _ => none
  | '\\' :: e :: cs =>
    match unescape e, readPieces cs with
    | some c, some (ps, cs) => some (.char c :: ps, cs)
    | _, _ => none
  | c :: cs =>
    if c.toNat < 0x20 then none
    else
      match readPieces cs with
      | some (ps, cs) => some (.char c :: ps, cs)
      | none => none

/-- The first half of a surrogate pair. -/
def IsHigh (u : Nat) : Prop := 0xD800 ≤ u ∧ u < 0xDC00

/-- The second half. -/
def IsLow (u : Nat) : Prop := 0xDC00 ≤ u ∧ u < 0xE000

instance (u : Nat) : Decidable (IsHigh u) := inferInstanceAs (Decidable (_ ∧ _))
instance (u : Nat) : Decidable (IsLow u) := inferInstanceAs (Decidable (_ ∧ _))

/-- The character of a code unit that stands alone. -/
def scalar (u : Nat) : Char := if IsHigh u ∨ IsLow u then '\uFFFD' else Char.ofNat u

/-- Put the pieces together. -/
def assemble : List Piece → List Char
  | [] => []
  | .char c :: ps => c :: assemble ps
  | .unit hi :: .unit lo :: ps =>
    if IsHigh hi ∧ IsLow lo then Char.ofNat (0x10000 + (hi - 0xD800) * 0x400 + (lo - 0xDC00)) :: assemble ps
    else scalar hi :: assemble (.unit lo :: ps)
  | .unit u :: ps => scalar u :: assemble ps

/-- A string after its opening quote. -/
def readString (cs : List Char) : Option (String × List Char) :=
  (readPieces cs).map fun r => (String.ofList (assemble r.1), r.2)

/-! ## Strings come back -/

/-- What the reader makes of a character that was written. -/
def pieceOf (c : Char) : Piece :=
  if c.toNat < 0x20 ∧ c ≠ '\x08' ∧ c ≠ '\x0c' ∧ c ≠ '\n' ∧ c ≠ '\r' ∧ c ≠ '\t' then .unit c.toNat
  else .char c

theorem hexVal_hexDigit : ∀ n < 16, hexVal (hexDigit n) = some n := by decide

theorem readPieces_quoteChar (c : Char) {cs rest : List Char} {ps : List Piece}
    (h : readPieces cs = some (ps, rest)) :
    readPieces (quoteChar c ++ cs) = some (pieceOf c :: ps, rest) := by
  by_cases hq : c = '"'
  · subst hq; simp [quoteChar, readPieces, unescape, h, pieceOf]
  by_cases hb : c = '\\'
  · subst hb; simp [quoteChar, readPieces, unescape, h, pieceOf]
  by_cases h8 : c = '\x08'
  · subst h8; simp [quoteChar, readPieces, unescape, h, pieceOf]
  by_cases hc : c = '\x0c'
  · subst hc; simp [quoteChar, readPieces, unescape, h, pieceOf]
  by_cases hn : c = '\n'
  · subst hn; simp [quoteChar, readPieces, unescape, h, pieceOf]
  by_cases hr : c = '\r'
  · subst hr; simp [quoteChar, readPieces, unescape, h, pieceOf]
  by_cases ht : c = '\t'
  · subst ht; simp [quoteChar, readPieces, unescape, h, pieceOf]
  by_cases hlow : c.toNat < 0x20
  · -- a control character, written as its code unit
    have h1 := hexVal_hexDigit (c.toNat / 16) (by omega)
    have h2 := hexVal_hexDigit (c.toNat % 16) (by omega)
    have hhex : hex4 '0' '0' (hexDigit (c.toNat / 16)) (hexDigit (c.toNat % 16)) = some c.toNat := by
      rw [hex4, h1, h2, show hexVal '0' = some 0 from rfl]
      simp only [Option.some.injEq]
      omega
    simp [quoteChar, pieceOf, hq, hb, h8, hc, hn, hr, ht, hlow, readPieces, hhex, h]
  · simp only [quoteChar, pieceOf, hq, hb, h8, hc, hn, hr, ht, hlow, if_false, false_and]
    rw [List.singleton_append]
    unfold readPieces
    split
    · rename_i heq; cases heq
    · rename_i heq; cases heq; exact absurd rfl hq
    · rename_i heq; cases heq; exact absurd rfl hb
    · rename_i heq; cases heq; exact absurd rfl hb
    · rename_i heq; cases heq; rw [if_neg hlow, h]

theorem readPieces_quote (cs rest : List Char) :
    readPieces (cs.flatMap quoteChar ++ '"' :: rest) = some (cs.map pieceOf, rest) := by
  induction cs with
  | nil => rfl
  | cons c cs ih => rw [List.flatMap_cons, List.append_assoc]; exact readPieces_quoteChar c ih

/-- An escaped unit that is no surrogate stands for its character, whatever follows. -/
theorem assemble_unit {u : Nat} (h : ¬ IsHigh u) (ps : List Piece) :
    assemble (.unit u :: ps) = scalar u :: assemble ps := by
  cases ps with
  | nil => rfl
  | cons p ps =>
      cases p with
      | char c => rfl
      | unit lo => rw [assemble, if_neg fun hp => h hp.1]

theorem assemble_pieceOf (cs : List Char) : assemble (cs.map pieceOf) = cs := by
  induction cs with
  | nil => rfl
  | cons c cs ih =>
      rw [List.map_cons, pieceOf]
      split
      · rename_i hlow
        have hc := hlow.1
        have hhigh : ¬ IsHigh c.toNat := by unfold IsHigh; omega
        have hlow' : ¬ IsLow c.toNat := by unfold IsLow; omega
        rw [assemble_unit hhigh, ih, scalar, if_neg (not_or.mpr ⟨hhigh, hlow'⟩), Char.ofNat_toNat]
      · rw [assemble, ih]

/-- **A string is read as it was written.** -/
theorem readString_quote (s : String) (rest : List Char) :
    readString (s.toList.flatMap quoteChar ++ '"' :: rest) = some (s, rest) := by
  rw [readString, readPieces_quote, Option.map_some, assemble_pieceOf, String.ofList_toList]

/-! ## Texts -/

mutual

/-- `JSON.stringify(v)`. -/
def print : Json → List Char
  | .null => "null".toList
  | .bool true => "true".toList
  | .bool false => "false".toList
  | .num n => n.write
  | .str s => quote s
  | .arr xs => '[' :: (printElements xs ++ [']'])
  | .obj ms => '{' :: (printMembers ms ++ ['}'])

/-- Values with commas between them. -/
def printElements : List Json → List Char
  | [] => []
  | [x] => print x
  | x :: y :: xs => print x ++ ',' :: printElements (y :: xs)

/-- Members with commas between them. -/
def printMembers : List (String × Json) → List Char
  | [] => []
  | [(k, v)] => quote k ++ ':' :: print v
  | (k, v) :: m :: ms => quote k ++ ':' :: (print v ++ ',' :: printMembers (m :: ms))

end

/-- White space between tokens. -/
def isSpace (c : Char) : Bool := c == ' ' || c == '\t' || c == '\n' || c == '\r'

def skipSpace (cs : List Char) : List Char := cs.dropWhile isSpace

/-- A word the text has to begin with, and what it stands for. -/
def literal (word : String) (v : Json) (cs : List Char) : Option (Json × List Char) :=
  if word.toList.isPrefixOf cs then some (v, cs.drop word.length) else none

mutual

/-- One value. The fuel bounds the depth of the recursion: two for every level, which takes a
    character at least. -/
def readValue : Nat → List Char → Option (Json × List Char)
  | 0, _ => none
  | fuel + 1, cs =>
    match skipSpace cs with
    | [] => none
    | c :: cs =>
      if c = '{' then
        if (skipSpace cs).head? = some '}' then some (.obj [], (skipSpace cs).tail)
        else
          match readMembers fuel cs with
          | some (ms, cs) => some (.obj (Members.ofList ms), cs)
          | none => none
      else if c = '[' then
        if (skipSpace cs).head? = some ']' then some (.arr [], (skipSpace cs).tail)
        else
          match readElements fuel cs with
          | some (xs, cs) => some (.arr xs, cs)
          | none => none
      else if c = '"' then (readString cs).map fun r => (.str r.1, r.2)
      else if c = 't' then literal "rue" (.bool true) cs
      else if c = 'f' then literal "alse" (.bool false) cs
      else if c = 'n' then literal "ull" .null cs
      else (Decimal.read (c :: cs)).map fun r => (.num r.1, r.2)

/-- The elements of an array, one at least, and its bracket. -/
def readElements : Nat → List Char → Option (List Json × List Char)
  | 0, _ => none
  | fuel + 1, cs =>
    match readValue fuel cs with
    | none => none
    | some (x, cs) =>
      match skipSpace cs with
      | ',' :: cs =>
        match readElements fuel cs with
        | some (xs, cs) => some (x :: xs, cs)
        | none => none
      | ']' :: cs => some ([x], cs)
      | _ => none

/-- The members of an object, one at least, and its brace. -/
def readMembers : Nat → List Char → Option (List (String × Json) × List Char)
  | 0, _ => none
  | fuel + 1, cs =>
    match skipSpace cs with
    | '"' :: cs =>
      match readString cs with
      | none => none
      | some (k, cs) =>
        match skipSpace cs with
        | ':' :: cs =>
          match readValue fuel cs with
          | none => none
          | some (v, cs) =>
            match skipSpace cs with
            | ',' :: cs =>
              match readMembers fuel cs with
              | some (ms, cs) => some ((k, v) :: ms, cs)
              | none => none
            | '}' :: cs => some ([(k, v)], cs)
            | _ => none
        | _ => none
    | _ => none

end

/-- `JSON.parse(text)`. -/
def parse (cs : List Char) : Option Json :=
  match readValue (2 * cs.length + 2) cs with
  | some (v, rest) => if skipSpace rest = [] then some v else none
  | none => none

/-! ## Every value comes back -/

theorem skipSpace_cons {c : Char} (h : isSpace c = false) (cs : List Char) :
    skipSpace (c :: cs) = c :: cs :=
  List.dropWhile_cons_of_neg (by rw [h]; exact Bool.false_ne_true)

/-- What a written value begins with: no space, and not the end of an array. -/
theorem head_print (v : Json) : ∃ c cs, print v = c :: cs ∧ isSpace c = false ∧ c ≠ ']' := by
  cases v with
  | null => exact ⟨'n', _, rfl, rfl, by decide⟩
  | bool b => cases b
              · exact ⟨'f', _, rfl, rfl, by decide⟩
              · exact ⟨'t', _, rfl, rfl, by decide⟩
  | num n =>
      obtain ⟨c, cs, hcs, hc⟩ := n.head_write
      refine ⟨c, cs, hcs, ?_, ?_⟩
      · rcases hc with rfl | hc
        · rfl
        · by_contra hs
          simp only [isSpace, Bool.not_eq_false, Bool.or_eq_true, beq_iff_eq] at hs
          rcases hs with ((rfl | rfl) | rfl) | rfl <;> exact absurd hc (by decide)
      · rintro rfl
        rcases hc with hc | hc <;> exact absurd hc (by decide)
  | str s => exact ⟨'"', _, rfl, rfl, by decide⟩
  | arr xs => exact ⟨'[', _, rfl, rfl, by decide⟩
  | obj ms => exact ⟨'{', _, rfl, rfl, by decide⟩

theorem head_printElements {xs : List Json} (hne : xs ≠ []) :
    ∃ c cs, printElements xs = c :: cs ∧ isSpace c = false ∧ c ≠ ']' := by
  obtain ⟨x, xs, rfl⟩ := List.exists_cons_of_ne_nil hne
  obtain ⟨c, cs, hcs, hspace, hclose⟩ := head_print x
  cases xs with
  | nil => exact ⟨c, cs, hcs, hspace, hclose⟩
  | cons y xs => exact ⟨c, _, by rw [printElements, hcs]; rfl, hspace, hclose⟩

theorem head_printMembers {ms : List (String × Json)} (hne : ms ≠ []) :
    ∃ cs, printMembers ms = '"' :: cs := by
  obtain ⟨⟨k, v⟩, ms, rfl⟩ := List.exists_cons_of_ne_nil hne
  cases ms with
  | nil => exact ⟨_, rfl⟩
  | cons m ms => exact ⟨_, rfl⟩

/-- What ends a value: no character a number could go on with. -/
theorem ends_cons {c : Char} (h : c = ',' ∨ c = ']' ∨ c = '}') (cs : List Char) : Decimal.Ends (c :: cs) := by
  intro c' hc'
  cases hc'
  rcases h with rfl | rfl | rfl <;> exact ⟨rfl, by decide, by decide, by decide⟩

/-- The text of a value is read as that value, with fuel for its length. -/
def Reads (v : Json) : Prop := ∀ (fuel : Nat) (rest : List Char), (print v).length ≤ fuel →
  Decimal.Ends rest → readValue fuel (print v ++ rest) = some (v, rest)

theorem readElements_print : ∀ (xs : List Json), xs ≠ [] → (∀ x ∈ xs, Reads x) →
    ∀ (fuel : Nat) (rest : List Char), (printElements xs).length + 1 ≤ fuel →
      readElements fuel (printElements xs ++ ']' :: rest) = some (xs, rest) := by
  intro xs
  induction xs with
  | nil => intro h; exact absurd rfl h
  | cons x xs ih =>
      intro _ hreads fuel rest hfuel
      obtain ⟨fuel, rfl⟩ : ∃ n, fuel = n + 1 := ⟨fuel - 1, by omega⟩
      cases xs with
      | nil =>
          have hx := hreads x List.mem_cons_self fuel (']' :: rest) (Nat.le_of_succ_le_succ hfuel)
            (ends_cons (.inr (.inl rfl)) rest)
          rw [readElements, printElements, hx]
          rfl
      | cons y xs =>
          rw [printElements, List.length_append, List.length_cons] at hfuel
          have hx := hreads x List.mem_cons_self fuel (',' :: (printElements (y :: xs) ++ ']' :: rest))
            (by omega) (ends_cons (.inl rfl) _)
          have hxs := ih (by simp) (fun z hz => hreads z (List.mem_cons_of_mem x hz)) fuel rest (by omega)
          rw [readElements, printElements, List.append_assoc, List.cons_append, hx]
          show (match readElements fuel (printElements (y :: xs) ++ ']' :: rest) with
            | some (xs, cs) => some (x :: xs, cs)
            | none => none) = _
          rw [hxs]

/-- A member is read up to its value. -/
theorem readMembers_member {k : String} {v : Json} (hv : Reads v) {fuel : Nat} {rest : List Char}
    (hfuel : (print v).length ≤ fuel) (hr : Decimal.Ends rest) :
    readMembers (fuel + 1) (quote k ++ ':' :: (print v ++ rest)) = match skipSpace rest with
      | ',' :: cs =>
        match readMembers fuel cs with
        | some (ms, cs) => some ((k, v) :: ms, cs)
        | none => none
      | '}' :: cs => some ([(k, v)], cs)
      | _ => none := by
  rw [quote, List.cons_append, List.append_assoc, List.singleton_append, readMembers,
    skipSpace_cons rfl]
  simp only [readString_quote, skipSpace_cons (c := ':') rfl, hv fuel rest hfuel hr]

theorem readMembers_print : ∀ (ms : List (String × Json)), ms ≠ [] → (∀ m ∈ ms, Reads m.2) →
    ∀ (fuel : Nat) (rest : List Char), (printMembers ms).length + 1 ≤ fuel →
      readMembers fuel (printMembers ms ++ '}' :: rest) = some (ms, rest) := by
  intro ms
  induction ms with
  | nil => intro h; exact absurd rfl h
  | cons m ms ih =>
      intro _ hreads fuel rest hfuel
      obtain ⟨k, v⟩ := m
      have hv : Reads v := hreads (k, v) List.mem_cons_self
      obtain ⟨fuel, rfl⟩ : ∃ n, fuel = n + 1 := ⟨fuel - 1, by omega⟩
      cases ms with
      | nil =>
          rw [printMembers, List.length_append, List.length_cons] at hfuel
          rw [printMembers, List.append_assoc, List.cons_append,
            readMembers_member hv (by omega) (ends_cons (.inr (.inr rfl)) rest), skipSpace_cons rfl]
          rfl
      | cons m ms =>
          rw [printMembers, List.length_append, List.length_cons, List.length_append,
            List.length_cons] at hfuel
          have hms := ih (by simp) (fun z hz => hreads z (List.mem_cons_of_mem _ hz)) fuel rest (by omega)
          rw [printMembers, List.append_assoc, List.cons_append, List.append_assoc, List.cons_append,
            readMembers_member hv (by omega) (ends_cons (.inl rfl) _), skipSpace_cons rfl]
          simp only [hms]

/-- **The reader inverts the printer**, one case for each kind of value. -/
theorem Wf.reads {v : Json} (h : Wf v) : Reads v := by
  induction h with
  | null =>
      intro fuel rest hfuel _
      obtain ⟨fuel, rfl⟩ : ∃ n, fuel = n + 1 := ⟨fuel - 1, by have : (print .null).length = 4 := rfl; omega⟩
      rfl
  | bool b =>
      intro fuel rest hfuel _
      cases b
      · obtain ⟨fuel, rfl⟩ : ∃ n, fuel = n + 1 :=
          ⟨fuel - 1, by have : (print (.bool false)).length = 5 := rfl; omega⟩
        rfl
      · obtain ⟨fuel, rfl⟩ : ∃ n, fuel = n + 1 :=
          ⟨fuel - 1, by have : (print (.bool true)).length = 4 := rfl; omega⟩
        rfl
  | num n =>
      intro fuel rest hfuel hr
      obtain ⟨c, cs, hcs, hc⟩ := n.head_write
      obtain ⟨_, _, hcs', hspace, _⟩ := head_print (.num n)
      have hhead : _ = c :: cs := hcs'.symm.trans hcs
      cases hhead
      rw [print, hcs, List.length_cons] at hfuel
      obtain ⟨fuel, rfl⟩ : ∃ n, fuel = n + 1 := ⟨fuel - 1, by omega⟩
      have hread := n.read_write hr
      rw [hcs, List.cons_append] at hread
      -- a number begins like no other value
      have hne : ∀ d : Char, d ≠ '-' → d.isDigit = false → c ≠ d := by
        rintro d hd hd' rfl
        rcases hc with hc | hc
        · exact hd hc
        · rw [hd'] at hc; exact absurd hc (by simp)
      rw [print, hcs, List.cons_append, readValue, skipSpace_cons hspace]
      simp only [if_neg (hne '{' (by decide) rfl), if_neg (hne '[' (by decide) rfl),
        if_neg (hne '"' (by decide) rfl), if_neg (hne 't' (by decide) rfl),
        if_neg (hne 'f' (by decide) rfl), if_neg (hne 'n' (by decide) rfl), hread, Option.map_some]
  | str s =>
      intro fuel rest hfuel _
      obtain ⟨fuel, rfl⟩ : ∃ n, fuel = n + 1 := ⟨fuel - 1, by rw [print, quote, List.length_cons] at hfuel; omega⟩
      rw [print, quote, List.cons_append, List.append_assoc, List.singleton_append, readValue,
        skipSpace_cons rfl]
      simp only [readString_quote, Option.map_some]
      rfl
  | @arr xs _ ih =>
      intro fuel rest hfuel _
      rw [print, List.length_cons, List.length_append, List.length_singleton] at hfuel
      obtain ⟨fuel, rfl⟩ : ∃ n, fuel = n + 1 := ⟨fuel - 1, by omega⟩
      by_cases hne : xs = []
      · subst hne; rfl
      · obtain ⟨c, cs, hcs, hspace, hclose⟩ := head_printElements hne
        have hread := readElements_print xs hne ih fuel rest (by omega)
        rw [print, List.cons_append, List.append_assoc, List.singleton_append, readValue, skipSpace_cons rfl]
        rw [hcs, List.cons_append] at hread ⊢
        simp only [skipSpace_cons hspace, List.head?_cons, Option.some.injEq, if_neg hclose, hread]
        rfl
  | @obj ms hs _ ih =>
      intro fuel rest hfuel _
      rw [print, List.length_cons, List.length_append, List.length_singleton] at hfuel
      obtain ⟨fuel, rfl⟩ : ∃ n, fuel = n + 1 := ⟨fuel - 1, by omega⟩
      by_cases hne : ms = []
      · subst hne; rfl
      · obtain ⟨cs, hcs⟩ := head_printMembers hne
        have hread := readMembers_print ms hne ih fuel rest (by omega)
        rw [print, List.cons_append, List.append_assoc, List.singleton_append, readValue, skipSpace_cons rfl]
        rw [hcs, List.cons_append] at hread ⊢
        simp only [skipSpace_cons (c := '"') rfl, List.head?_cons, Option.some.injEq, hread,
          Members.ofList_sorted hs]
        rfl

/-- **`JSON.parse(JSON.stringify(v))` is `v`.** -/
theorem parse_print {v : Json} (h : Wf v) : parse (print v) = some v := by
  have hread := h.reads (2 * (print v).length + 2) [] (by omega) (fun c hc => absurd hc (by simp))
  rw [List.append_nil] at hread
  rw [parse, hread]
  rfl

/-! ## Whatever is parsed is a value -/

theorem wf_literal {word : String} {v v' : Json} {cs rest : List Char} (hv : Wf v)
    (h : literal word v cs = some (v', rest)) : Wf v' := by
  unfold literal at h
  split at h
  · cases h; exact hv
  · exact absurd h (by simp)

/-- What the three readers return with this fuel are values. -/
structure ReadsValues (fuel : Nat) : Prop where
  value : ∀ cs v rest, readValue fuel cs = some (v, rest) → Wf v
  elements : ∀ cs xs rest, readElements fuel cs = some (xs, rest) → ∀ x ∈ xs, Wf x
  members : ∀ cs ms rest, readMembers fuel cs = some (ms, rest) → ∀ m ∈ ms, Wf m.2

theorem ReadsValues.readValue {fuel : Nat} (ih : ReadsValues fuel) {cs rest : List Char} {v : Json}
    (h : Json.readValue (fuel + 1) cs = some (v, rest)) : Wf v := by
  rw [Json.readValue] at h
  split at h
  · exact absurd h (by simp)
  · split at h
    · split at h
      · cases h; exact .obj List.Pairwise.nil fun m hm => absurd hm List.not_mem_nil
      · split at h
        · rename_i ms _ hread
          cases h
          exact .obj (Members.sorted_ofList ms) fun m hm =>
            ih.members _ _ _ hread m (Members.mem_ofList hm)
        · exact absurd h (by simp)
    split at h
    · split at h
      · cases h; exact .arr fun x hx => absurd hx List.not_mem_nil
      · split at h
        · rename_i xs _ hread
          cases h
          exact .arr (ih.elements _ _ _ hread)
        · exact absurd h (by simp)
    split at h
    · obtain ⟨r, _, hr⟩ := Option.map_eq_some_iff.mp h; cases hr; exact .str _
    split at h
    · exact wf_literal (.bool true) h
    split at h
    · exact wf_literal (.bool false) h
    split at h
    · exact wf_literal .null h
    · obtain ⟨r, _, hr⟩ := Option.map_eq_some_iff.mp h; cases hr; exact .num _

theorem ReadsValues.readElements {fuel : Nat} (ih : ReadsValues fuel) {cs rest : List Char}
    {xs : List Json} (h : Json.readElements (fuel + 1) cs = some (xs, rest)) : ∀ x ∈ xs, Wf x := by
  rw [Json.readElements] at h
  split at h
  · exact absurd h (by simp)
  · rename_i x _ hx
    have hx := ih.value _ _ _ hx
    split at h
    · split at h
      · rename_i xs' _ hxs
        cases h
        exact List.forall_mem_cons.mpr ⟨hx, ih.elements _ _ _ hxs⟩
      · exact absurd h (by simp)
    · cases h
      exact List.forall_mem_singleton.mpr hx
    · exact absurd h (by simp)

theorem ReadsValues.readMembers {fuel : Nat} (ih : ReadsValues fuel) {cs rest : List Char}
    {ms : List (String × Json)} (h : Json.readMembers (fuel + 1) cs = some (ms, rest)) :
    ∀ m ∈ ms, Wf m.2 := by
  rw [Json.readMembers] at h
  split at h
  · split at h
    · exact absurd h (by simp)
    · split at h
      · split at h
        · exact absurd h (by simp)
        · rename_i v _ hv
          have hv := ih.value _ _ _ hv
          split at h
          · split at h
            · rename_i ms' _ hms
              cases h
              exact List.forall_mem_cons.mpr ⟨hv, ih.members _ _ _ hms⟩
            · exact absurd h (by simp)
          · cases h
            exact List.forall_mem_singleton.mpr hv
          · exact absurd h (by simp)
      · exact absurd h (by simp)
  · exact absurd h (by simp)

theorem reads_values (fuel : Nat) : ReadsValues fuel := by
  induction fuel with
  | zero =>
      refine ⟨fun cs v rest h => ?_, fun cs xs rest h => ?_, fun cs ms rest h => ?_⟩
      · rw [readValue] at h; exact absurd h (by simp)
      · rw [readElements] at h; exact absurd h (by simp)
      · rw [readMembers] at h; exact absurd h (by simp)
  | succ fuel ih =>
      exact ⟨fun _ _ _ h => ih.readValue h, fun _ _ _ h => ih.readElements h,
        fun _ _ _ h => ih.readMembers h⟩

/-- **What `JSON.parse` returns is a JSON value.** -/
theorem parse_wf {cs : List Char} {v : Json} (h : parse cs = some v) : Wf v := by
  unfold parse at h
  split at h
  · rename_i v' rest hread
    split at h
    · cases h; exact (reads_values _).value _ _ _ hread
    · exact absurd h (by simp)
  · exact absurd h (by simp)

/-- Two values with one text are one value. -/
theorem print_injective {v w : Json} (hv : Wf v) (hw : Wf w) (h : print v = print w) : v = w :=
  Option.some.inj ((parse_print hv).symm.trans ((congrArg parse h).trans (parse_print hw)))

example : (parse " \x7b\"b\" : [1, true], \"a\\u0041\": -2.50, \"b\": null \x7d ".toList).map print
    = some "\x7b\"aA\":-2.5,\"b\":null\x7d".toList := by decide +kernel

end Json
