import Mathlib.Data.List.DropRight
import Mathlib.Data.List.TakeWhile
import Mathlib.Tactic.Linarith

/-!
# `Lib.Decimal` — finite decimals as a script language writes and reads them

A finite decimal in its only normal form, the text `Number.prototype.toString` gives it (plain up to
twenty-one digits before the point, else with an exponent) and the reader of a JSON number. Reading what
was written gives the number back (`read_write`). A number keeps all the digits its text has: there is no
rounding.
-/

/-- A list of digits. -/
abbrev Digits := { ds : List Char // ∀ c ∈ ds, c.isDigit = true }

namespace Digits

/-- No digits. -/
def empty : Digits := ⟨[], fun _ h => absurd h List.not_mem_nil⟩

def append (a b : Digits) : Digits :=
  ⟨a.1 ++ b.1, fun c hc => (List.mem_append.mp hc).elim (a.2 c) (b.2 c)⟩

/-- The digits a text begins with, and what comes after. -/
def span (cs : List Char) : Digits × List Char :=
  (⟨cs.takeWhile Char.isDigit, fun _ hc => List.mem_takeWhile_imp hc⟩, cs.dropWhile Char.isDigit)

/-- The number they write. -/
def toNat (ds : Digits) : Nat := Nat.ofDigitChars 10 ds.1 0

/-- No digit comes next. -/
def Ends (rest : List Char) : Prop := ∀ c, rest.head? = some c → c.isDigit = false

theorem takeWhile_append {ds rest : List Char} (h : ∀ c ∈ ds, c.isDigit = true) (hr : Ends rest) :
    (ds ++ rest).takeWhile Char.isDigit = ds ∧ (ds ++ rest).dropWhile Char.isDigit = rest := by
  rw [List.takeWhile_append_of_pos h, List.dropWhile_append_of_pos h]
  cases rest with
  | nil => exact ⟨List.append_nil _, rfl⟩
  | cons c rest =>
      have hc : ¬ c.isDigit = true := by rw [hr c rfl]; exact Bool.false_ne_true
      rw [List.takeWhile_cons_of_neg hc, List.dropWhile_cons_of_neg hc]
      exact ⟨List.append_nil _, rfl⟩

/-- **A run of digits is read to its end.** -/
theorem span_append (ds : Digits) {rest : List Char} (hr : Ends rest) : span (ds.1 ++ rest) = (ds, rest) := by
  obtain ⟨h1, h2⟩ := takeWhile_append ds.2 hr
  exact Prod.ext (Subtype.ext h1) h2

/-- The digits of a natural number. -/
def ofNat (n : Nat) : Digits :=
  ⟨Nat.toDigits 10 n, fun _ hc => Nat.isDigit_of_mem_toDigits (by decide) (by decide) hc⟩

@[simp] theorem toNat_ofNat (n : Nat) : (ofNat n).toNat = n :=
  Nat.ofDigitChars_toDigits (by decide) (by decide)

theorem ofNat_ne_nil (n : Nat) : (ofNat n).1 ≠ [] := Nat.toDigits_ne_nil

end Digits

/-- `0.d₁d₂…dₖ · 10^point`, signed: no digit too many on either side, and one way to write zero. -/
structure Decimal where
  negative : Bool
  digits : Digits
  point : Int
  head_ne : digits.1.head? ≠ some '0'
  last_ne : digits.1.getLast? ≠ some '0'
  zero_unsigned : digits.1 = [] → negative = false ∧ point = 0
deriving DecidableEq

namespace Decimal

def zero : Decimal :=
  { negative := false, digits := Digits.empty, point := 0, head_ne := by simp [Digits.empty], last_ne := by simp [Digits.empty],
    zero_unsigned := fun _ => ⟨rfl, rfl⟩ }

/-! ## Normal form -/

/-- The digits without the zeros in front and behind. -/
def core (ds : List Char) : List Char := (ds.dropWhile (· == '0')).rdropWhile (· == '0')

theorem mem_of_mem_core {ds : List Char} {c : Char} (h : c ∈ core ds) : c ∈ ds :=
  (List.dropWhile_sublist _).subset ((List.rdropWhile_prefix _ _).subset h)

theorem head_core (ds : List Char) : (core ds).head? ≠ some '0' := by
  intro h
  have hpre := List.rdropWhile_prefix (· == '0') (ds.dropWhile (· == '0'))
  have hhead : (ds.dropWhile (· == '0')).head? = some '0' := by
    obtain ⟨more, hmore⟩ := hpre
    rw [← hmore, List.head?_append, show (List.rdropWhile _ _).head? = some '0' from h, Option.some_or]
  have := List.head?_dropWhile_not (· == '0') ds
  rw [hhead] at this
  exact absurd this (by decide)

theorem getLast_core (ds : List Char) : (core ds).getLast? ≠ some '0' := by
  intro h
  have hne : core ds ≠ [] := by intro hnil; rw [hnil] at h; exact absurd h (by simp)
  have hnot := List.rdropWhile_last_not (· == '0') (ds.dropWhile (· == '0')) hne
  rw [List.getLast?_eq_some_getLast hne, Option.some.injEq] at h
  exact hnot (by rw [show (List.rdropWhile _ _).getLast hne = '0' from h]; rfl)

/-- The number `0.ds · 10^point` in normal form. -/
def norm (negative : Bool) (ds : Digits) (point : Int) : Decimal :=
  if h : core ds.1 = [] then zero
  else
    { negative, digits := ⟨core ds.1, fun c hc => ds.2 c (mem_of_mem_core hc)⟩
      point := point - (ds.1.takeWhile (· == '0')).length
      head_ne := head_core ds.1, last_ne := getLast_core ds.1, zero_unsigned := fun hnil => absurd hnil h }

/-- Zeros around the digits change nothing. -/
theorem core_pad {ds : List Char} (hne : ds ≠ []) (hh : ds.head? ≠ some '0') (hl : ds.getLast? ≠ some '0')
    (a b : Nat) : core (List.replicate a '0' ++ ds ++ List.replicate b '0') = ds ∧
      ((List.replicate a '0' ++ ds ++ List.replicate b '0').takeWhile (· == '0')).length = a := by
  obtain ⟨c, cs, rfl⟩ := List.exists_cons_of_ne_nil hne
  have hc : ¬ (c == '0') = true := by
    rw [beq_iff_eq]; rintro rfl; exact hh rfl
  have hzeros : ∀ n, ∀ x ∈ List.replicate n '0', (x == '0') = true := by
    intro n x hx; rw [List.eq_of_mem_replicate hx]; rfl
  rw [core, List.append_assoc, List.dropWhile_append_of_pos (hzeros a),
    List.takeWhile_append_of_pos (hzeros a), List.cons_append, List.dropWhile_cons_of_neg (p := (· == '0')) hc,
    List.takeWhile_cons_of_neg (p := (· == '0')) hc, List.append_nil, List.length_replicate]
  refine ⟨?_, rfl⟩
  rw [← List.cons_append]
  induction b with
  | zero =>
      rw [List.replicate_zero, List.append_nil, List.rdropWhile_eq_self_iff]
      intro hne' h
      exact hl (by rw [List.getLast?_eq_some_getLast hne', beq_iff_eq.mp h])
  | succ b ih =>
      rw [List.replicate_succ', ← List.append_assoc, List.rdropWhile_concat_pos _ _ _ rfl]
      exact ih

/-- **The normal form of a padded number is the number.** -/
theorem norm_pad (d : Decimal) (hne : d.digits.1 ≠ []) {ds : Digits} {a b : Nat} {point : Int}
    (hds : ds.1 = List.replicate a '0' ++ d.digits.1 ++ List.replicate b '0') (hp : point = d.point + a) :
    norm d.negative ds point = d := by
  obtain ⟨hcore, hlen⟩ := core_pad hne d.head_ne d.last_ne a b
  rw [← hds] at hcore hlen
  obtain ⟨negative, ⟨digits, hdigits⟩, point', h1, h2, h3⟩ := d
  unfold norm
  rw [dif_neg (by rw [hcore]; exact hne)]
  have hp : point = point' + a := hp
  simp only [mk.injEq, true_and, hcore, hlen]
  omega

/-! ## Reading -/

/-- A minus sign, if there is one. -/
def readMinus : List Char → Bool × List Char
  | '-' :: cs => (true, cs)
  | cs => (false, cs)

/-- The digits after a point; none if there is no point. -/
def readFraction : List Char → Option (Digits × List Char)
  | '.' :: cs =>
    let (ds, cs) := Digits.span cs
    if ds.1 = [] then none else some (ds, cs)
  | cs => some (Digits.empty, cs)

/-- The sign of an exponent. -/
def readSign : List Char → Bool × List Char
  | '-' :: cs => (true, cs)
  | '+' :: cs => (false, cs)
  | cs => (false, cs)

/-- An exponent; zero if there is none. -/
def readExponent : List Char → Option (Int × List Char)
  | c :: cs =>
    if c = 'e' ∨ c = 'E' then
      let (negative, cs) := readSign cs
      let (ds, cs) := Digits.span cs
      if ds.1 = [] then none else some (if negative then -ds.toNat else ds.toNat, cs)
    else some (0, c :: cs)
  | [] => some (0, [])

/-- A JSON number: no plus sign in front of it, and no zero but a single one. -/
def read (cs : List Char) : Option (Decimal × List Char) :=
  let (negative, cs) := readMinus cs
  let (int, cs) := Digits.span cs
  if int.1 = [] ∨ (int.1.head? = some '0' ∧ int.1.length ≠ 1) then none
  else
    match readFraction cs with
    | none => none
    | some (frac, cs) =>
      match readExponent cs with
      | none => none
      | some (e, cs) => some (norm negative (int.append frac) (int.1.length + e), cs)

/-! ## Writing -/

/-- A fraction, with its point. -/
def writeFraction (frac : Digits) : List Char := if frac.1 = [] then [] else '.' :: frac.1

/-- An exponent, with its sign. -/
def writeExponent : Option Int → List Char
  | none => []
  | some e => 'e' :: (if e < 0 then '-' else '+') :: (Digits.ofNat e.natAbs).1

/-- The digits before the point and after it, and the exponent if one is written. -/
def parts (d : Decimal) : Digits × Digits × Option Int :=
  let zeros (n : Nat) : Digits :=
    ⟨List.replicate n '0', fun c hc => by rw [List.eq_of_mem_replicate hc]; rfl⟩
  let upTo (n : Nat) : Digits := ⟨d.digits.1.take n, fun c hc => d.digits.2 c (List.mem_of_mem_take hc)⟩
  let from' (n : Nat) : Digits := ⟨d.digits.1.drop n, fun c hc => d.digits.2 c (List.mem_of_mem_drop hc)⟩
  if d.digits.1 = [] then (zeros 1, zeros 0, none)
  else if 0 < d.point ∧ d.point ≤ 21 then
    (Digits.append (upTo d.point.toNat) (zeros (d.point.toNat - d.digits.1.length)),
      from' d.point.toNat, none)
  else if -6 < d.point ∧ d.point ≤ 0 then (zeros 1, Digits.append (zeros d.point.natAbs) d.digits, none)
  else (upTo 1, from' 1, some (d.point - 1))

/-- `String(d)`. -/
def write (d : Decimal) : List Char :=
  let (int, frac, e) := d.parts
  (if d.negative then ['-'] else []) ++ int.1 ++ writeFraction frac ++ writeExponent e

/-! ## Reading what was written -/

/-- What can come after a number: none of its characters. -/
def Ends (rest : List Char) : Prop :=
  ∀ c, rest.head? = some c → c.isDigit = false ∧ c ≠ '.' ∧ c ≠ 'e' ∧ c ≠ 'E'

theorem readExponent_write (e : Option Int) {rest : List Char} (hr : Ends rest) :
    readExponent (writeExponent e ++ rest) = some (e.getD 0, rest) := by
  cases e with
  | none =>
      cases rest with
      | nil => rfl
      | cons c rest =>
          obtain ⟨_, _, he, hE⟩ := hr c rfl
          exact if_neg (by simp [he, hE])
  | some e =>
      have hspan := Digits.span_append (Digits.ofNat e.natAbs) fun c hc => (hr c hc).1
      have hne := Digits.ofNat_ne_nil e.natAbs
      by_cases hneg : e < 0
      · simp only [writeExponent, hneg, if_true, List.cons_append, readExponent, true_or, readSign, hspan,
          hne, if_false, Digits.toNat_ofNat, Option.getD_some]
        rw [show -((e.natAbs : Nat) : Int) = e by omega]
      · have hsign : readSign ('+' :: ((Digits.ofNat e.natAbs).1 ++ rest))
            = (false, (Digits.ofNat e.natAbs).1 ++ rest) := rfl
        simp only [writeExponent, hneg, if_false, List.cons_append, readExponent, true_or, if_true, hsign,
          hspan, hne, Digits.toNat_ofNat, Option.getD_some]
        rw [if_neg Bool.false_ne_true, show ((e.natAbs : Nat) : Int) = e by omega]

/-- An exponent begins with no digit and no point. -/
theorem head_writeExponent (e : Option Int) {rest : List Char} (hr : Ends rest) {c : Char}
    (h : (writeExponent e ++ rest).head? = some c) : c.isDigit = false ∧ c ≠ '.' := by
  cases e with
  | none => exact ⟨(hr c h).1, (hr c h).2.1⟩
  | some e => cases h; exact ⟨rfl, by decide⟩

theorem readFraction_write (frac : Digits) (e : Option Int) {rest : List Char} (hr : Ends rest) :
    readFraction (writeFraction frac ++ (writeExponent e ++ rest)) = some (frac, writeExponent e ++ rest) := by
  have hnext : ∀ c, (writeExponent e ++ rest).head? = some c → c.isDigit = false ∧ c ≠ '.' :=
    fun c h => head_writeExponent e hr h
  by_cases hfrac : frac.1 = []
  · rw [writeFraction, if_pos hfrac, List.nil_append]
    have hnil : frac = Digits.empty := Subtype.ext hfrac
    cases hcs : writeExponent e ++ rest with
    | nil => rw [hnil]; rfl
    | cons c cs =>
        have hc : c ≠ '.' := (hnext c (by rw [hcs]; rfl)).2
        unfold readFraction
        split
        · rename_i h; cases h; exact absurd rfl hc
        · rw [hnil]
  · rw [writeFraction, if_neg hfrac, List.cons_append]
    simp only [readFraction, Digits.span_append frac fun c h => (hnext c h).1, if_neg hfrac]

/-- **The parts of a number are read as they were written.** -/
theorem read_parts (negative : Bool) (int frac : Digits) (e : Option Int) {rest : List Char}
    (hint : int.1 ≠ []) (hzero : int.1.head? = some '0' → int.1.length = 1) (hr : Ends rest) :
    read ((if negative then ['-'] else []) ++ int.1 ++ writeFraction frac ++ writeExponent e ++ rest)
      = some (norm negative (int.append frac) (int.1.length + e.getD 0), rest) := by
  have hminus : readMinus ((if negative then ['-'] else []) ++
      (int.1 ++ (writeFraction frac ++ (writeExponent e ++ rest))))
        = (negative, int.1 ++ (writeFraction frac ++ (writeExponent e ++ rest))) := by
    cases negative with
    | true => rfl
    | false =>
        obtain ⟨c, cs, hcs⟩ := List.exists_cons_of_ne_nil hint
        have hc : c ≠ '-' := by
          rintro rfl; exact absurd (int.2 '-' (hcs ▸ List.mem_cons_self)) (by decide)
        rw [hcs, if_neg Bool.false_ne_true, List.nil_append, List.cons_append]
        unfold readMinus
        split
        · rename_i h; cases h; exact absurd rfl hc
        · rfl
  have hnext : Digits.Ends (writeFraction frac ++ (writeExponent e ++ rest)) := by
    intro c h
    unfold writeFraction at h
    split at h
    · exact (head_writeExponent e hr h).1
    · cases h; rfl
  have hok : ¬ (int.1 = [] ∨ (int.1.head? = some '0' ∧ int.1.length ≠ 1)) := by
    rintro (h | ⟨h, hlen⟩)
    · exact hint h
    · exact hlen (hzero h)
  simp only [List.append_assoc]
  simp only [read, hminus, Digits.span_append int hnext, if_neg hok, readFraction_write frac e hr,
    readExponent_write e hr]

/-- The digits before the point are some, begin with a zero only if that is all, and with the others and
    the exponent they are the number. -/
theorem parts_spec (d : Decimal) : d.parts.1.1 ≠ [] ∧
    (d.parts.1.1.head? = some '0' → d.parts.1.1.length = 1) ∧
      norm d.negative (d.parts.1.append d.parts.2.1) (d.parts.1.1.length + d.parts.2.2.getD 0) = d := by
  by_cases hnil : d.digits.1 = []
  · obtain ⟨negative, ⟨digits, hdigits⟩, point, h1, h2, h3⟩ := d
    have hnil : digits = [] := hnil
    subst hnil
    obtain ⟨rfl, rfl⟩ := h3 rfl
    exact ⟨by simp [parts], by simp [parts], rfl⟩
  · obtain ⟨c, cs, hcs⟩ := List.exists_cons_of_ne_nil hnil
    have hc : c ≠ '0' := by rintro rfl; exact d.head_ne (by rw [hcs]; rfl)
    have hpos : 0 < d.digits.1.length := List.length_pos_iff.mpr hnil
    by_cases hplain : 0 < d.point ∧ d.point ≤ 21
    · -- the point lies behind the digits or between them
      obtain ⟨n, hn⟩ : ∃ n : Nat, d.point.toNat = n + 1 := ⟨d.point.toNat - 1, by omega⟩
      have hsplit : (d.digits.1.take (n + 1) ++ List.replicate (n + 1 - d.digits.1.length) '0')
          ++ d.digits.1.drop (n + 1)
            = List.replicate 0 '0' ++ d.digits.1 ++ List.replicate (n + 1 - d.digits.1.length) '0' := by
        rcases Nat.lt_or_ge (n + 1) d.digits.1.length with hlt | hge
        · rw [Nat.sub_eq_zero_of_le (Nat.le_of_lt hlt)]
          simp
        · rw [List.take_of_length_le hge, List.drop_of_length_le hge]
          simp
      have hlen : (d.digits.1.take (n + 1) ++ List.replicate (n + 1 - d.digits.1.length) '0').length
          = n + 1 := by
        rw [List.length_append, List.length_take, List.length_replicate]; omega
      have hparts : d.parts.1.1 = d.digits.1.take (n + 1) ++ List.replicate (n + 1 - d.digits.1.length) '0'
          ∧ d.parts.2.1.1 = d.digits.1.drop (n + 1) ∧ d.parts.2.2 = none := by
        simp only [parts, if_neg hnil, if_pos hplain, hn]
        exact ⟨rfl, trivial, trivial⟩
      obtain ⟨hint, hfrac, he⟩ := hparts
      refine ⟨?_, ?_, ?_⟩
      · rw [hint, hcs]; simp
      · intro h
        rw [hint, hcs] at h
        exact absurd (Option.some.inj h) hc
      · refine norm_pad (a := 0) d hnil (by rw [← hsplit, ← hint, ← hfrac]; rfl) ?_
        rw [hint, hlen, he, Option.getD_none]
        omega
    · by_cases hsmall : -6 < d.point ∧ d.point ≤ 0
      · -- a zero before the point, and zeros after it
        have hparts : d.parts.1.1 = ['0'] ∧ d.parts.2.1.1
            = List.replicate d.point.natAbs '0' ++ d.digits.1 ∧ d.parts.2.2 = none := by
          simp only [parts, if_neg hnil, if_neg hplain, if_pos hsmall]
          exact ⟨rfl, rfl, trivial⟩
        obtain ⟨hint, hfrac, he⟩ := hparts
        refine ⟨by rw [hint]; simp, fun _ => by rw [hint]; rfl, ?_⟩
        refine norm_pad (a := d.point.natAbs + 1) (b := 0) d hnil ?_ ?_
        · show d.parts.1.1 ++ d.parts.2.1.1 = _
          rw [hint, hfrac, List.replicate_succ]
          simp
        · rw [hint, he, Option.getD_none, List.length_singleton]
          omega
      · -- one digit before the point
        have hparts : d.parts.1.1 = d.digits.1.take 1 ∧ d.parts.2.1.1 = d.digits.1.drop 1 ∧
            d.parts.2.2 = some (d.point - 1) := by
          simp only [parts, if_neg hnil, if_neg hplain, if_neg hsmall]
          exact ⟨trivial, trivial, trivial⟩
        obtain ⟨hint, hfrac, he⟩ := hparts
        refine ⟨by rw [hint, hcs]; simp, fun _ => by rw [hint, hcs]; rfl, ?_⟩
        refine norm_pad (a := 0) (b := 0) d hnil ?_ ?_
        · show d.parts.1.1 ++ d.parts.2.1.1 = _
          rw [hint, hfrac, List.take_append_drop]
          simp
        · rw [hint, he, Option.getD_some, hcs]
          simp

/-- **Reading gives back what was written.** -/
theorem read_write (d : Decimal) {rest : List Char} (hr : Ends rest) :
    read (d.write ++ rest) = some (d, rest) := by
  obtain ⟨hint, hzero, hnorm⟩ := d.parts_spec
  have h := read_parts d.negative d.parts.1 d.parts.2.1 d.parts.2.2 hint hzero hr
  rw [hnorm] at h
  exact h

/-- What is written begins with a digit or a minus sign. -/
theorem head_write (d : Decimal) : ∃ c cs, d.write = c :: cs ∧ (c = '-' ∨ c.isDigit = true) := by
  obtain ⟨hint, _, _⟩ := d.parts_spec
  obtain ⟨c, cs, hcs⟩ := List.exists_cons_of_ne_nil hint
  cases hneg : d.negative with
  | true => exact ⟨'-', d.parts.1.1 ++ (writeFraction d.parts.2.1 ++ writeExponent d.parts.2.2),
      by simp [write, hneg], .inl rfl⟩
  | false =>
      refine ⟨c, cs ++ (writeFraction d.parts.2.1 ++ writeExponent d.parts.2.2), ?_,
        .inr (d.parts.1.2 c (hcs ▸ List.mem_cons_self))⟩
      simp [write, hneg, hcs]

example : (read "-120.50e-1,".toList).map (fun r => (r.1.write, r.2))
    = some ("-12.05".toList, [',']) := by decide +kernel

end Decimal
