import InfrixPlayground.Lib.Json

/-!
# `Lib.JsonText` — the texts of a JSON value in other styles

An encoder is free in how it escapes the characters of a string, in the white space between tokens and in
the order it writes the members of an object. A `Style` is such a choice, and carries that its choices are
legal; `JSON.parse` reads what it writes as the value with its members in order (`parse_write`). The two
styles of Go's `encoding/json` are at the end: one line, and `SetIndent("", "  ")`.
-/

namespace Json

/-! ## Values, one constructor at a time -/

/-- **The induction rule** for values whose elements and members are values. -/
@[elab_as_elim] theorem induct {P : Json → Prop} (null : P .null) (bool : ∀ b, P (.bool b))
    (num : ∀ n, P (.num n)) (str : ∀ s, P (.str s)) (arr : ∀ xs, (∀ x ∈ xs, P x) → P (.arr xs))
    (obj : ∀ ms, (∀ m ∈ ms, P m.2) → P (.obj ms)) (v : Json) : P v :=
  @Json.rec P (fun xs => ∀ x ∈ xs, P x) (fun ms => ∀ m ∈ ms, P m.2) (fun m => P m.2) null bool num str arr obj
    (fun _ h => absurd h List.not_mem_nil) (fun _ _ hx hxs => List.forall_mem_cons.mpr ⟨hx, hxs⟩)
    (fun _ h => absurd h List.not_mem_nil) (fun _ _ hm hms => List.forall_mem_cons.mpr ⟨hm, hms⟩)
    (fun _ _ h => h) v

mutual

/-- The value with the members of every object in order. -/
def inOrder : Json → Json
  | .arr xs => .arr (inOrderElements xs)
  | .obj ms => .obj (Members.ofList (inOrderMembers ms))
  | v => v

def inOrderElements : List Json → List Json
  | [] => []
  | x :: xs => inOrder x :: inOrderElements xs

def inOrderMembers : List (String × Json) → List (String × Json)
  | [] => []
  | (k, v) :: ms => (k, inOrder v) :: inOrderMembers ms

end

/-! ## Styles -/

/-- A way to write values: a character between quotes, what stands before an element at some depth and
    before the bracket that closes it, and what stands behind a colon. -/
structure Style where
  char : Char → List Char
  gap : Nat → List Char
  afterColon : List Char
  /-- What the reader makes of a character that was written. -/
  piece : Char → Piece
  reads : ∀ {c : Char} {cs rest : List Char} {ps : List Piece}, readPieces cs = some (ps, rest) →
    readPieces (char c ++ cs) = some (piece c :: ps, rest)
  means : ∀ (c : Char) (ps : List Piece), assemble (piece c :: ps) = c :: assemble ps
  gap_space : ∀ depth, ∀ c ∈ gap depth, isSpace c = true
  colon_space : ∀ c ∈ afterColon, isSpace c = true

namespace Style

variable (st : Style)

/-- A string between quotes. -/
def quote (s : String) : List Char := '"' :: (s.toList.flatMap st.char ++ ['"'])

mutual

/-- The text of a value that stands at some depth. -/
def write (depth : Nat) : Json → List Char
  | .null => "null".toList
  | .bool true => "true".toList
  | .bool false => "false".toList
  | .num n => n.write
  | .str s => st.quote s
  | .arr [] => ['[', ']']
  | .arr (x :: xs) => '[' :: (writeElements (depth + 1) (x :: xs) ++ (st.gap depth ++ [']']))
  | .obj [] => ['{', '}']
  | .obj (m :: ms) => '{' :: (writeMembers (depth + 1) (m :: ms) ++ (st.gap depth ++ ['}']))

def writeElements (depth : Nat) : List Json → List Char
  | [] => []
  | [x] => st.gap depth ++ write depth x
  | x :: y :: xs => st.gap depth ++ (write depth x ++ ',' :: writeElements depth (y :: xs))

def writeMembers (depth : Nat) : List (String × Json) → List Char
  | [] => []
  | [(k, v)] => st.gap depth ++ (st.quote k ++ ':' :: (st.afterColon ++ write depth v))
  | (k, v) :: m :: ms =>
    st.gap depth ++ (st.quote k ++ ':' :: (st.afterColon ++ (write depth v ++ ',' :: writeMembers depth (m :: ms))))

end

variable {st}

/-! ## Strings come back -/

theorem readPieces_chars (cs rest : List Char) :
    readPieces (cs.flatMap st.char ++ '"' :: rest) = some (cs.map st.piece, rest) := by
  induction cs with
  | nil => rfl
  | cons c cs ih => rw [List.flatMap_cons, List.append_assoc]; exact st.reads ih

theorem assemble_pieces (cs : List Char) : assemble (cs.map st.piece) = cs := by
  induction cs with
  | nil => rfl
  | cons c cs ih => rw [List.map_cons, st.means, ih]

theorem readString_chars (s : String) (rest : List Char) :
    readString (s.toList.flatMap st.char ++ '"' :: rest) = some (s, rest) := by
  rw [readString, readPieces_chars, Option.map_some, assemble_pieces, String.ofList_toList]

/-! ## White space means nothing -/

theorem skipSpace_append {w : List Char} (h : ∀ c ∈ w, isSpace c = true) (cs : List Char) :
    skipSpace (w ++ cs) = skipSpace cs :=
  List.dropWhile_append_of_pos h

theorem readValue_append {w : List Char} (h : ∀ c ∈ w, isSpace c = true) (fuel : Nat) (cs : List Char) :
    readValue fuel (w ++ cs) = readValue fuel cs := by
  cases fuel with
  | zero => rw [readValue, readValue]
  | succ fuel => rw [readValue, readValue, skipSpace_append h]

theorem readMembers_append {w : List Char} (h : ∀ c ∈ w, isSpace c = true) (fuel : Nat) (cs : List Char) :
    readMembers fuel (w ++ cs) = readMembers fuel cs := by
  cases fuel with
  | zero => rw [readMembers, readMembers]
  | succ fuel => rw [readMembers, readMembers, skipSpace_append h]

theorem skipSpace_gap (depth : Nat) {c : Char} (h : isSpace c = false) (cs : List Char) :
    skipSpace (st.gap depth ++ c :: cs) = c :: cs := by
  rw [skipSpace_append (st.gap_space depth), skipSpace_cons h]

/-! ## Values come back -/

/-- What a written value begins with. -/
theorem head_write (depth : Nat) (v : Json) :
    ∃ c cs, st.write depth v = c :: cs ∧ isSpace c = false ∧ c ≠ ']' := by
  cases v with
  | null => exact ⟨'n', _, by rw [write]; rfl, rfl, by decide⟩
  | bool b =>
      cases b
      · exact ⟨'f', _, by rw [write]; rfl, rfl, by decide⟩
      · exact ⟨'t', _, by rw [write]; rfl, rfl, by decide⟩
  | num n =>
      obtain ⟨c, cs, hcs, hspace, hclose⟩ := head_print (.num n)
      exact ⟨c, cs, by rw [write]; exact hcs, hspace, hclose⟩
  | str s => exact ⟨'"', _, by rw [write]; rfl, rfl, by decide⟩
  | arr xs => cases xs with
    | nil => exact ⟨'[', _, by rw [write], rfl, by decide⟩
    | cons x xs => exact ⟨'[', _, by rw [write], rfl, by decide⟩
  | obj ms => cases ms with
    | nil => exact ⟨'{', _, by rw [write], rfl, by decide⟩
    | cons m ms => exact ⟨'{', _, by rw [write], rfl, by decide⟩

theorem head_writeElements (depth : Nat) (x : Json) (xs : List Json) :
    ∃ c cs, st.writeElements depth (x :: xs) = st.gap depth ++ c :: cs ∧ isSpace c = false ∧ c ≠ ']' := by
  obtain ⟨c, cs, hcs, hspace, hclose⟩ := @head_write st depth x
  cases xs with
  | nil => exact ⟨c, cs, by rw [writeElements, hcs], hspace, hclose⟩
  | cons y xs => exact ⟨c, _, by rw [writeElements, hcs]; rfl, hspace, hclose⟩

theorem head_writeMembers (depth : Nat) (m : String × Json) (ms : List (String × Json)) :
    ∃ cs, st.writeMembers depth (m :: ms) = st.gap depth ++ '"' :: cs := by
  obtain ⟨k, v⟩ := m
  cases ms with
  | nil => exact ⟨_, by rw [writeMembers]; rfl⟩
  | cons m ms => exact ⟨_, by rw [writeMembers]; rfl⟩

/-- The text of a value is read as that value, with fuel for its length. -/
def Reads (st : Style) (v : Json) : Prop := ∀ (depth fuel : Nat) (rest : List Char),
  (st.write depth v).length ≤ fuel → Decimal.Ends rest →
    readValue fuel (st.write depth v ++ rest) = some (inOrder v, rest)

/-- No number goes on over white space or the end of what it stands in. -/
theorem ends_gap (depth : Nat) {c : Char} (h : c = ',' ∨ c = ']' ∨ c = '}') (cs : List Char) :
    Decimal.Ends (st.gap depth ++ c :: cs) := by
  cases hgap : st.gap depth with
  | nil => exact ends_cons h cs
  | cons w ws =>
      have hw : isSpace w = true := st.gap_space depth w (by rw [hgap]; exact List.mem_cons_self)
      intro c' hc'
      cases hc'
      simp only [isSpace, Bool.or_eq_true, beq_iff_eq] at hw
      rcases hw with ((rfl | rfl) | rfl) | rfl <;> exact ⟨rfl, by decide, by decide, by decide⟩

theorem readElements_write : ∀ (xs : List Json), xs ≠ [] → (∀ x ∈ xs, st.Reads x) →
    ∀ (depth outer fuel : Nat) (rest : List Char), (st.writeElements depth xs).length + 1 ≤ fuel →
      readElements fuel (st.writeElements depth xs ++ (st.gap outer ++ ']' :: rest))
        = some (inOrderElements xs, rest) := by
  intro xs
  induction xs with
  | nil => intro h; exact absurd rfl h
  | cons x xs ih =>
      intro _ hreads depth outer fuel rest hfuel
      obtain ⟨fuel, rfl⟩ : ∃ n, fuel = n + 1 := ⟨fuel - 1, by omega⟩
      have hspace := st.gap_space depth
      cases xs with
      | nil =>
          rw [writeElements, List.length_append] at hfuel
          have hx := hreads x List.mem_cons_self depth fuel (st.gap outer ++ ']' :: rest) (by omega)
            (ends_gap outer (.inr (.inl rfl)) rest)
          rw [readElements, writeElements, List.append_assoc, readValue_append hspace, hx]
          simp only [skipSpace_gap (c := ']') outer rfl]
          rfl
      | cons y xs =>
          rw [writeElements, List.length_append, List.length_append, List.length_cons] at hfuel
          have hx := hreads x List.mem_cons_self depth fuel
            (',' :: (st.writeElements depth (y :: xs) ++ (st.gap outer ++ ']' :: rest))) (by omega)
            (ends_cons (.inl rfl) _)
          have hxs := ih (by simp) (fun z hz => hreads z (List.mem_cons_of_mem x hz)) depth outer fuel rest
            (by omega)
          rw [readElements, writeElements, List.append_assoc, List.append_assoc, List.cons_append,
            readValue_append hspace, hx]
          simp only [skipSpace_cons (c := ',') rfl, hxs]
          rfl

/-- The last member of an object. -/
theorem readMembers_last {k : String} {v : Json} (hv : st.Reads v) {depth fuel : Nat}
    {rest cs : List Char} (hfuel : (st.write depth v).length ≤ fuel) (hr : Decimal.Ends rest)
    (hclose : skipSpace rest = '}' :: cs) :
    readMembers (fuel + 1) (st.gap depth ++ (st.quote k ++ ':' :: (st.afterColon ++
      (st.write depth v ++ rest)))) = some ([(k, inOrder v)], cs) := by
  rw [readMembers_append (st.gap_space depth), quote, List.cons_append, List.append_assoc,
    List.singleton_append, readMembers, skipSpace_cons rfl]
  simp only [readString_chars, skipSpace_cons (c := ':') rfl, readValue_append st.colon_space,
    hv depth fuel rest hfuel hr, hclose]

/-- A member with others behind it. -/
theorem readMembers_more {k : String} {v : Json} (hv : st.Reads v) {depth fuel : Nat}
    {cs rest : List Char} {ms : List (String × Json)} (hfuel : (st.write depth v).length ≤ fuel)
    (hms : readMembers fuel cs = some (ms, rest)) :
    readMembers (fuel + 1) (st.gap depth ++ (st.quote k ++ ':' :: (st.afterColon ++
      (st.write depth v ++ ',' :: cs)))) = some ((k, inOrder v) :: ms, rest) := by
  rw [readMembers_append (st.gap_space depth), quote, List.cons_append, List.append_assoc,
    List.singleton_append, readMembers, skipSpace_cons rfl]
  simp only [readString_chars, skipSpace_cons (c := ':') rfl, readValue_append st.colon_space,
    hv depth fuel (',' :: cs) hfuel (ends_cons (.inl rfl) cs), skipSpace_cons (c := ',') rfl, hms]

theorem readMembers_write : ∀ (ms : List (String × Json)), ms ≠ [] → (∀ m ∈ ms, st.Reads m.2) →
    ∀ (depth outer fuel : Nat) (rest : List Char), (st.writeMembers depth ms).length + 1 ≤ fuel →
      readMembers fuel (st.writeMembers depth ms ++ (st.gap outer ++ '}' :: rest))
        = some (inOrderMembers ms, rest) := by
  intro ms
  induction ms with
  | nil => intro h; exact absurd rfl h
  | cons m ms ih =>
      intro _ hreads depth outer fuel rest hfuel
      obtain ⟨k, v⟩ := m
      have hv : st.Reads v := hreads (k, v) List.mem_cons_self
      obtain ⟨fuel, rfl⟩ : ∃ n, fuel = n + 1 := ⟨fuel - 1, by omega⟩
      cases ms with
      | nil =>
          simp only [writeMembers, List.length_append, List.length_cons] at hfuel
          simp only [writeMembers, List.append_assoc, List.cons_append]
          exact readMembers_last hv (by omega) (ends_gap outer (.inr (.inr rfl)) rest)
            (skipSpace_gap outer rfl rest)
      | cons m ms =>
          simp only [writeMembers, List.length_append, List.length_cons] at hfuel
          have hms := ih (by simp) (fun z hz => hreads z (List.mem_cons_of_mem _ hz)) depth outer fuel rest
            (by omega)
          simp only [writeMembers, List.append_assoc, List.cons_append]
          exact readMembers_more hv (by omega) hms

/-- **The reader inverts the writer**, one case for each kind of value. -/
theorem reads_all (st : Style) (v : Json) : st.Reads v := by
  induction v using Json.induct with
  | null => intro depth fuel rest hfuel hr; rw [write] at hfuel ⊢; exact Wf.null.reads fuel rest hfuel hr
  | bool b =>
      intro depth fuel rest hfuel hr
      cases b
      · rw [write] at hfuel ⊢; exact (Wf.bool false).reads fuel rest hfuel hr
      · rw [write] at hfuel ⊢; exact (Wf.bool true).reads fuel rest hfuel hr
  | num n => intro depth fuel rest hfuel hr; rw [write] at hfuel ⊢; exact (Wf.num n).reads fuel rest hfuel hr
  | str s =>
      intro depth fuel rest hfuel _
      rw [write, quote, List.length_cons] at hfuel
      obtain ⟨fuel, rfl⟩ : ∃ n, fuel = n + 1 := ⟨fuel - 1, by omega⟩
      rw [write, quote, List.cons_append, List.append_assoc, List.singleton_append, readValue,
        skipSpace_cons rfl]
      simp only [readString_chars, Option.map_some]
      rfl
  | arr xs ih =>
      intro depth fuel rest hfuel _
      cases xs with
      | nil =>
          rw [write] at hfuel ⊢
          obtain ⟨fuel, rfl⟩ : ∃ n, fuel = n + 1 := ⟨fuel - 1, by simp at hfuel; omega⟩
          rfl
      | cons x xs =>
          simp only [write, List.length_cons, List.length_append, List.length_nil] at hfuel
          obtain ⟨fuel, rfl⟩ : ∃ n, fuel = n + 1 := ⟨fuel - 1, by omega⟩
          have hread := readElements_write (x :: xs) (by simp) ih (depth + 1) depth fuel rest (by omega)
          obtain ⟨c, cs, hcs, hspace, hclose⟩ := @head_writeElements st (depth + 1) x xs
          rw [write, List.cons_append, List.append_assoc, List.append_assoc, List.singleton_append, readValue,
            skipSpace_cons rfl]
          have hhead : (skipSpace (st.writeElements (depth + 1) (x :: xs) ++
              (st.gap depth ++ ']' :: rest))).head? ≠ some ']' := by
            rw [hcs, List.append_assoc, List.cons_append, skipSpace_gap (depth + 1) hspace]
            simpa using hclose
          simp only [if_neg hhead, hread]
          rfl
  | obj ms ih =>
      intro depth fuel rest hfuel _
      cases ms with
      | nil =>
          rw [write] at hfuel ⊢
          obtain ⟨fuel, rfl⟩ : ∃ n, fuel = n + 1 := ⟨fuel - 1, by simp at hfuel; omega⟩
          rfl
      | cons m ms =>
          simp only [write, List.length_cons, List.length_append, List.length_nil] at hfuel
          obtain ⟨fuel, rfl⟩ : ∃ n, fuel = n + 1 := ⟨fuel - 1, by omega⟩
          have hread := readMembers_write (m :: ms) (by simp) ih (depth + 1) depth fuel rest (by omega)
          obtain ⟨cs, hcs⟩ := @head_writeMembers st (depth + 1) m ms
          rw [write, List.cons_append, List.append_assoc, List.append_assoc, List.singleton_append, readValue,
            skipSpace_cons rfl]
          have hhead : (skipSpace (st.writeMembers (depth + 1) (m :: ms) ++
              (st.gap depth ++ '}' :: rest))).head? ≠ some '}' := by
            rw [hcs, List.append_assoc, List.cons_append, skipSpace_gap (depth + 1) rfl]
            simp
          simp only [if_neg hhead, hread]
          rfl

/-- White space after a value is no part of it. -/
theorem parse_write_space (st : Style) (depth : Nat) (v : Json) {w : List Char}
    (hw : ∀ c ∈ w, isSpace c = true) : parse (st.write depth v ++ w) = some (inOrder v) := by
  have hends : Decimal.Ends w := by
    cases w with
    | nil => exact fun c hc => absurd hc (by simp)
    | cons c cs =>
        intro c' hc'
        cases hc'
        have hc := hw c List.mem_cons_self
        simp only [isSpace, Bool.or_eq_true, beq_iff_eq, or_assoc] at hc
        rcases hc with rfl | rfl | rfl | rfl <;> exact ⟨rfl, by decide, by decide, by decide⟩
  have hread := st.reads_all v depth (2 * (st.write depth v ++ w).length + 2) w
    (by rw [List.length_append]; omega) hends
  have hskip : skipSpace w = [] := List.dropWhile_eq_nil_iff.mpr hw
  rw [parse, hread]
  exact if_pos hskip

/-- **What a style writes is read as the value, its members in order.** -/
theorem parse_write (st : Style) (depth : Nat) (v : Json) :
    parse (st.write depth v) = some (inOrder v) := by
  have h := st.parse_write_space depth v (w := []) nofun
  rwa [List.append_nil] at h

end Style

/-! ## Structs -/

/-- A struct: its fields in the order of their declaration, without the empty ones that are to be omitted. -/
def struct (fs : List (String × Option Json)) : Json := .obj (fs.filterMap fun f => f.2.map fun v => (f.1, v))

theorem inOrderMembers_fields : ∀ fs : List (String × Option Json),
    inOrderMembers (fs.filterMap fun f => f.2.map fun v => (f.1, v))
      = (fs.map fun f => (f.1, f.2.map inOrder)).filterMap fun f => f.2.map fun v => (f.1, v)
  | [] => rfl
  | (_, none) :: fs => inOrderMembers_fields fs
  | (k, some v) :: fs => congrArg ((k, inOrder v) :: ·) (inOrderMembers_fields fs)

/-- **A struct comes back as the object of its fields.** -/
theorem inOrder_struct (fs : List (String × Option Json)) :
    inOrder (struct fs) = ofFields (fs.map fun f => (f.1, f.2.map inOrder)) := by
  rw [struct, inOrder, inOrderMembers_fields]
  rfl

/-- Each field has the value it was written with. -/
theorem get_struct (fs : List (String × Option Json)) (hn : (fs.map Prod.fst).Nodup) :
    ∃ ms, inOrder (struct fs) = .obj ms ∧ ∀ k v, (k, v) ∈ fs → Members.get k ms = v.map inOrder := by
  refine ⟨_, inOrder_struct fs, fun k v h => get_ofFields ?_ (List.mem_map.mpr ⟨(k, v), h, rfl⟩)⟩
  rw [List.map_map]
  exact hn

/-! ## Go's two styles -/

/-- Characters that a Go encoder escapes and a script does not. -/
def IsHtml (c : Char) : Prop := c = '<' ∨ c = '>' ∨ c = '&' ∨ c = '\u2028' ∨ c = '\u2029'

instance (c : Char) : Decidable (IsHtml c) := inferInstanceAs (Decidable (_ ∨ _))

/-- A character between quotes. -/
def goChar (c : Char) : List Char :=
  if IsHtml c then
    ['\\', 'u', hexDigit (c.toNat / 4096), hexDigit (c.toNat / 256 % 16), hexDigit (c.toNat / 16 % 16),
      hexDigit (c.toNat % 16)]
  else quoteChar c

/-- What the reader makes of it. -/
def goPiece (c : Char) : Piece := if IsHtml c then .unit c.toNat else pieceOf c

theorem readPieces_goChar {c : Char} {cs rest : List Char} {ps : List Piece}
    (h : readPieces cs = some (ps, rest)) : readPieces (goChar c ++ cs) = some (goPiece c :: ps, rest) := by
  unfold goChar goPiece
  split
  · rename_i hc
    rcases hc with rfl | rfl | rfl | rfl | rfl
    all_goals
      simp only [List.cons_append, List.nil_append, readPieces, h]
      rfl
  · exact readPieces_quoteChar c h

theorem assemble_goPiece (c : Char) (ps : List Piece) : assemble (goPiece c :: ps) = c :: assemble ps := by
  unfold goPiece
  split
  · rename_i hc
    rcases hc with rfl | rfl | rfl | rfl | rfl <;> rw [assemble_unit (by decide)] <;> rfl
  · rw [pieceOf]
    split
    · rename_i hlow
      have hc := hlow.1
      have hhigh : ¬ IsHigh c.toNat := by unfold IsHigh; omega
      have hlow' : ¬ IsLow c.toNat := by unfold IsLow; omega
      rw [assemble_unit hhigh, scalar, if_neg (not_or.mpr ⟨hhigh, hlow'⟩), Char.ofNat_toNat]
    · rw [assemble]

/-- `json.Marshal`. -/
def goCompact : Style where
  char := goChar
  gap := fun _ => []
  afterColon := []
  piece := goPiece
  reads := readPieces_goChar
  means := assemble_goPiece
  gap_space := fun _ _ h => absurd h List.not_mem_nil
  colon_space := fun _ h => absurd h List.not_mem_nil

/-- An `Encoder` after `SetIndent("", "  ")`, without the newline it ends a value with. -/
def goIndented : Style where
  char := goChar
  gap := fun depth => '\n' :: List.replicate (2 * depth) ' '
  afterColon := [' ']
  piece := goPiece
  reads := readPieces_goChar
  means := assemble_goPiece
  gap_space := fun _ c h => by
    rcases List.mem_cons.mp h with rfl | h
    · rfl
    · rw [List.eq_of_mem_replicate h]; rfl
  colon_space := fun c h => by rw [List.mem_singleton.mp h]; rfl

example : String.ofList (goIndented.write 0 (.obj [("b", .arr [.str "<"]), ("a", .null)]))
    = "\x7b\n  \"b\": [\n    \"\\u003c\"\n  ],\n  \"a\": null\n\x7d" := by decide +kernel

/-! ## One line -/

/-- No control character. -/
def Printable (c : Char) : Prop := 0x20 ≤ c.toNat

instance (c : Char) : Decidable (Printable c) := inferInstanceAs (Decidable (_ ≤ _))

/-- A closed text is looked through character by character. -/
theorem printable_of_all {cs : List Char} (h : cs.all (decide <| Printable ·) = true) : ∀ c ∈ cs, Printable c :=
  fun c hc => of_decide_eq_true (List.all_eq_true.mp h c hc)

theorem printable_hexDigit (n : Nat) : Printable (hexDigit n) := by
  have hmem : ∀ c ∈ '0' :: "0123456789abcdef".toList, Printable c := printable_of_all (by decide)
  refine hmem _ ?_
  rw [hexDigit, List.getD_eq_getElem?_getD]
  cases hget : "0123456789abcdef".toList[n]? with
  | none => exact List.mem_cons_self
  | some c => exact List.mem_cons_of_mem _ (List.mem_of_getElem? hget)

theorem printable_quoteChar (c : Char) : ∀ d ∈ quoteChar c, Printable d := by
  unfold quoteChar
  split_ifs with h1 h2 h3 h4 h5 h6 h7 hlow
  · exact printable_of_all (by decide)
  · exact printable_of_all (by decide)
  · exact printable_of_all (by decide)
  · exact printable_of_all (by decide)
  · exact printable_of_all (by decide)
  · exact printable_of_all (by decide)
  · exact printable_of_all (by decide)
  · simp only [List.forall_mem_cons]
    exact ⟨by decide, by decide, by decide, by decide, printable_hexDigit _, printable_hexDigit _, nofun⟩
  · exact List.forall_mem_singleton.mpr (Nat.le_of_not_lt hlow)

theorem printable_goChar (c : Char) : ∀ d ∈ goChar c, Printable d := by
  unfold goChar
  split
  · simp only [List.forall_mem_cons]
    exact ⟨by decide, by decide, printable_hexDigit _, printable_hexDigit _, printable_hexDigit _,
      printable_hexDigit _, nofun⟩
  · exact printable_quoteChar c

theorem printable_goQuote (s : String) : ∀ c ∈ goCompact.quote s, Printable c := by
  rw [Style.quote, List.forall_mem_cons, List.forall_mem_append]
  refine ⟨by decide, fun c hc => ?_, printable_of_all (by decide)⟩
  obtain ⟨d, _, hd⟩ := List.mem_flatMap.mp hc
  exact printable_goChar d c hd

theorem printable_digit {c : Char} (h : c.isDigit = true) : Printable c := by
  simp only [Char.isDigit, Bool.and_eq_true, decide_eq_true_eq] at h
  exact Nat.le_trans (by decide) h.1

theorem printable_number (n : Decimal) : ∀ c ∈ n.write, Printable c := by
  have hdigits : ∀ ds : Digits, ∀ c ∈ ds.1, Printable c := fun ds c hc => printable_digit (ds.2 c hc)
  unfold Decimal.write
  obtain ⟨int, frac, e⟩ := n.parts
  simp only [List.forall_mem_append]
  refine ⟨⟨⟨?_, hdigits int⟩, ?_⟩, ?_⟩
  · split
    · exact printable_of_all (by decide)
    · nofun
  · unfold Decimal.writeFraction
    split
    · nofun
    · exact List.forall_mem_cons.mpr ⟨by decide, hdigits frac⟩
  · cases e with
    | none => rw [Decimal.writeExponent]; nofun
    | some e =>
        rw [Decimal.writeExponent, List.forall_mem_cons, List.forall_mem_cons]
        refine ⟨by decide, ?_, hdigits _⟩
        split <;> decide

theorem printable_elements {depth : Nat} : ∀ {xs : List Json},
    (∀ x ∈ xs, ∀ depth, ∀ c ∈ goCompact.write depth x, Printable c) →
      ∀ c ∈ goCompact.writeElements depth xs, Printable c := by
  intro xs
  induction xs with
  | nil => intro _; rw [Style.writeElements]; nofun
  | cons x xs ih =>
      intro h
      have hx := h x List.mem_cons_self depth
      cases xs with
      | nil => rw [Style.writeElements]; exact hx
      | cons y xs =>
          have hxs := ih fun z hz => h z (List.mem_cons_of_mem x hz)
          rw [Style.writeElements]
          exact List.forall_mem_append.mpr ⟨nofun, List.forall_mem_append.mpr
            ⟨hx, List.forall_mem_cons.mpr ⟨by decide, hxs⟩⟩⟩

theorem printable_members {depth : Nat} : ∀ {ms : List (String × Json)},
    (∀ m ∈ ms, ∀ depth, ∀ c ∈ goCompact.write depth m.2, Printable c) →
      ∀ c ∈ goCompact.writeMembers depth ms, Printable c := by
  intro ms
  induction ms with
  | nil => intro _; rw [Style.writeMembers]; nofun
  | cons m ms ih =>
      intro h
      obtain ⟨k, v⟩ := m
      have hv := h (k, v) List.mem_cons_self depth
      cases ms with
      | nil =>
          rw [Style.writeMembers]
          exact List.forall_mem_append.mpr ⟨nofun, List.forall_mem_append.mpr ⟨printable_goQuote k,
            List.forall_mem_cons.mpr ⟨by decide, List.forall_mem_append.mpr ⟨nofun, hv⟩⟩⟩⟩
      | cons m ms =>
          have hms := ih fun z hz => h z (List.mem_cons_of_mem _ hz)
          rw [Style.writeMembers]
          exact List.forall_mem_append.mpr ⟨nofun, List.forall_mem_append.mpr ⟨printable_goQuote k,
            List.forall_mem_cons.mpr ⟨by decide, List.forall_mem_append.mpr ⟨nofun,
              List.forall_mem_append.mpr ⟨hv, List.forall_mem_cons.mpr ⟨by decide, hms⟩⟩⟩⟩⟩⟩

/-- **`json.Marshal` writes one line.** -/
theorem printable_goCompact (v : Json) : ∀ depth, ∀ c ∈ goCompact.write depth v, Printable c := by
  induction v using Json.induct with
  | null => intro depth; rw [Style.write]; exact printable_of_all (by decide)
  | bool b => intro depth; cases b <;> rw [Style.write] <;> exact printable_of_all (by decide)
  | num n => intro depth; rw [Style.write]; exact printable_number n
  | str s => intro depth; rw [Style.write]; exact printable_goQuote s
  | arr xs ih =>
      intro depth
      cases xs with
      | nil => rw [Style.write]; exact printable_of_all (by decide)
      | cons x xs =>
          rw [Style.write, List.forall_mem_cons, List.forall_mem_append]
          exact ⟨by decide, printable_elements ih, List.forall_mem_singleton.mpr (by decide)⟩
  | obj ms ih =>
      intro depth
      cases ms with
      | nil => rw [Style.write]; exact printable_of_all (by decide)
      | cons m ms =>
          rw [Style.write, List.forall_mem_cons, List.forall_mem_append]
          exact ⟨by decide, printable_members ih, List.forall_mem_singleton.mpr (by decide)⟩

end Json
