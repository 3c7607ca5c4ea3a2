import Mathlib.Data.List.Basic
import Mathlib.Data.List.Flatten
import Mathlib.Data.List.Infix

/-!
# `Lib.PercentCoding` — bytes written into the text of a link

`encode keep` writes the bytes in `keep` as they are and every other as a percent sign and two hexadecimal digits;
`decode` reads such a text back. What is written comes back if no percent sign is among the bytes kept
(`decode_encode`); a percent sign that is kept costs two bytes (`length_decode`), so that nothing else comes back as
it was (`decode_encode_iff`). A slash that is written as it is stays a boundary: the parts decode on their own
(`decode_slash`).
-/

namespace PercentCoding

/-- The bytes of a text. -/
def utf8 (cs : List Char) : List UInt8 := cs.flatMap String.utf8EncodeChar

@[simp] theorem utf8_nil : utf8 [] = [] := rfl

theorem utf8_cons (c : Char) (cs : List Char) : utf8 (c :: cs) = String.utf8EncodeChar c ++ utf8 cs := rfl

theorem utf8_append (cs ds : List Char) : utf8 (cs ++ ds) = utf8 cs ++ utf8 ds := List.flatMap_append

/-- A text's bytes as the byte array of the string. -/
theorem utf8_toList (s : String) : (⟨(utf8 s.toList).toArray⟩ : ByteArray) = s.toByteArray := by
  rw [← String.utf8Encode_toList, ByteArray.ext_iff, List.utf8Encode, List.data_toByteArray]
  rfl

/-- The text that bytes are the text of. -/
def fromUTF8 (bs : List UInt8) : Option String := String.fromUTF8? ⟨bs.toArray⟩

theorem fromUTF8_eq_some {bs : List UInt8} {s : String} : fromUTF8 bs = some s ↔ bs = utf8 s.toList := by
  constructor
  · intro h
    unfold fromUTF8 String.fromUTF8? at h
    split at h
    · have hbytes := utf8_toList s
      rw [← Option.some.inj h] at hbytes ⊢
      exact (Array.toList_inj.mpr (ByteArray.mk.inj hbytes)).symm
    · cases h
  · rintro rfl
    rw [fromUTF8, utf8_toList]
    exact dif_pos s.isValidUTF8

theorem utf8_inj {s t : String} (h : utf8 s.toList = utf8 t.toList) : s = t := by
  have hs : fromUTF8 (utf8 s.toList) = some s := fromUTF8_eq_some.mpr rfl
  rw [h, fromUTF8_eq_some.mpr rfl] at hs
  exact (Option.some.inj hs).symm

/-! ## Writing and reading -/

/-- The value of a hexadecimal digit. -/
def digitValue (c : Char) : Option Nat :=
  if '0' ≤ c ∧ c ≤ '9' then some (c.toNat - 48)
  else if 'a' ≤ c ∧ c ≤ 'f' then some (c.toNat - 87)
  else if 'A' ≤ c ∧ c ≤ 'F' then some (c.toNat - 55)
  else none

/-- The digit that is written for a value; an upper-case one. -/
def digit (n : Nat) : Char := n.digitChar.toUpper

def encodeByte (keep : UInt8 → Bool) (b : UInt8) : List Char :=
  if keep b then [Char.ofNat b.toNat] else ['%', digit (b.toNat / 16), digit (b.toNat % 16)]

def encode (keep : UInt8 → Bool) (bs : List UInt8) : List Char := bs.flatMap (encodeByte keep)

/-- The bytes that a text stands for, unless a percent sign stands without its digits. -/
def decode : List Char → Option (List UInt8)
  | [] => some []
  | '%' :: a :: b :: cs =>
    match digitValue a, digitValue b with
    | some x, some y => (decode cs).map fun bs => UInt8.ofNat (16 * x + y) :: bs
    | _, _ => none
  | '%' :: _ => none
  | c :: cs => (decode cs).map fun bs => String.utf8EncodeChar c ++ bs

theorem decode_percent {a b : Char} {x y : Nat} (ha : digitValue a = some x) (hb : digitValue b = some y)
    (cs : List Char) : decode ('%' :: a :: b :: cs) = (decode cs).map fun bs => UInt8.ofNat (16 * x + y) :: bs := by
  rw [decode, ha, hb]

theorem decode_cons {c : Char} (hc : c ≠ '%') (cs : List Char) :
    decode (c :: cs) = (decode cs).map fun bs => String.utf8EncodeChar c ++ bs := by
  rw [decode]
  · exact fun _ _ _ h _ => hc h
  · exact fun h => hc h

/-- The ways a text with a first character decodes. -/
theorem decode_cases {c : Char} {cs : List Char} {bs : List UInt8} (h : decode (c :: cs) = some bs) :
    (∃ a b ds x y rest, c = '%' ∧ cs = a :: b :: ds ∧ digitValue a = some x ∧ digitValue b = some y ∧
      decode ds = some rest ∧ bs = UInt8.ofNat (16 * x + y) :: rest) ∨
    (c ≠ '%' ∧ ∃ rest, decode cs = some rest ∧ bs = String.utf8EncodeChar c ++ rest) := by
  by_cases hc : c = '%'
  · subst hc
    left
    match cs with
    | [] => cases h
    | [a] => cases h
    | a :: b :: ds =>
        rw [decode] at h
        cases ha : digitValue a with
        | none => rw [ha] at h; cases h
        | some x =>
            cases hb : digitValue b with
            | none => rw [ha, hb] at h; cases h
            | some y =>
                rw [ha, hb] at h
                obtain ⟨rest, hrest, rfl⟩ := Option.map_eq_some_iff.mp h
                exact ⟨a, b, ds, x, y, rest, rfl, rfl, ha, hb, hrest, rfl⟩
  · right
    rw [decode_cons hc] at h
    obtain ⟨rest, hrest, rfl⟩ := Option.map_eq_some_iff.mp h
    exact ⟨hc, rest, hrest, rfl⟩

/-! ## What is written comes back -/

theorem digitValue_digit : ∀ n < 16, digitValue (digit n) = some n := by decide

theorem digit_ne_percent : ∀ n < 16, digit n ≠ '%' := by decide

theorem digitValue_lt {c : Char} {n : Nat} (h : digitValue c = some n) : c ≠ '%' ∧ c ≠ '/' ∧ c.toNat < 128 := by
  have hnum : c.toNat < 128 ∧ c.toNat ≠ 37 ∧ c.toNat ≠ 47 := by
    unfold digitValue at h
    simp only [Char.le_def, UInt32.le_iff_toNat_le] at h
    have h0 : c.val.toNat = c.toNat := rfl
    have hd : ('0' : Char).val.toNat = 48 ∧ ('9' : Char).val.toNat = 57 ∧ ('a' : Char).val.toNat = 97 ∧
      ('f' : Char).val.toNat = 102 ∧ ('A' : Char).val.toNat = 65 ∧ ('F' : Char).val.toNat = 70 := by decide
    rw [h0, hd.1, hd.2.1, hd.2.2.1, hd.2.2.2.1, hd.2.2.2.2.1, hd.2.2.2.2.2] at h
    split at h
    · omega
    · split at h
      · omega
      · split at h
        · omega
        · cases h
  refine ⟨?_, ?_, hnum.1⟩
  · rintro rfl
    exact hnum.2.1 rfl
  · rintro rfl
    exact hnum.2.2 rfl

/-- A byte below 128 is the text of its character. -/
theorem utf8EncodeChar_ofNat : ∀ n < 128, String.utf8EncodeChar (Char.ofNat n) = [UInt8.ofNat n] := by decide +kernel

theorem ofNat_ne_percent : ∀ n < 128, n ≠ 37 → Char.ofNat n ≠ '%' := by decide +kernel

theorem decode_encodeByte {keep : UInt8 → Bool} {b : UInt8} (h : keep b = true → b.toNat < 128 ∧ b ≠ 37)
    (cs : List Char) : decode (encodeByte keep b ++ cs) = (decode cs).map (b :: ·) := by
  have hb := b.toNat_lt
  unfold encodeByte
  split
  · rename_i hkeep
    obtain ⟨hlt, hne⟩ := h hkeep
    have hne' : b.toNat ≠ 37 := fun hb => hne (UInt8.toNat_inj.mp hb)
    rw [List.singleton_append, decode_cons (ofNat_ne_percent _ hlt hne'), utf8EncodeChar_ofNat _ hlt, UInt8.ofNat_toNat]
    rfl
  · have hval : 16 * (b.toNat / 16) + b.toNat % 16 = b.toNat := Nat.div_add_mod b.toNat 16
    rw [List.cons_append, List.cons_append, List.cons_append, List.nil_append,
      decode_percent (digitValue_digit _ (by omega)) (digitValue_digit _ (by omega)), hval, UInt8.ofNat_toNat]

/-- What every character that is written is. -/
theorem mem_encode {keep : UInt8 → Bool} {P : Char → Prop} (hpercent : P '%') (hdigit : ∀ n < 16, P (digit n))
    (hkeep : ∀ b, keep b = true → P (Char.ofNat b.toNat)) {bs : List UInt8} : ∀ c ∈ encode keep bs, P c := by
  intro c hc
  obtain ⟨b, _, hc⟩ := List.mem_flatMap.mp hc
  have hb := b.toNat_lt
  unfold encodeByte at hc
  split at hc
  · rename_i h
    rw [List.mem_singleton.mp hc]
    exact hkeep b h
  · simp only [List.mem_cons, List.not_mem_nil, or_false] at hc
    rcases hc with rfl | rfl | rfl
    · exact hpercent
    · exact hdigit _ (by omega)
    · exact hdigit _ (by omega)

/-- **What is written comes back**, where the bytes kept are ASCII and not percent signs. -/
theorem decode_encode {keep : UInt8 → Bool} {bs : List UInt8} (h : ∀ b ∈ bs, keep b = true → b.toNat < 128 ∧ b ≠ 37) :
    decode (encode keep bs) = some bs := by
  induction bs with
  | nil => rfl
  | cons b bs ih =>
      rw [encode, List.flatMap_cons, decode_encodeByte (h b List.mem_cons_self)]
      have := ih fun b hb => h b (List.mem_cons_of_mem _ hb)
      rw [encode] at this
      rw [this]
      rfl

/-- A text without percent signs stands for its own bytes. -/
theorem decode_plain : ∀ {cs : List Char}, '%' ∉ cs → decode cs = some (utf8 cs)
  | [], _ => rfl
  | c :: cs, h => by
      rw [List.mem_cons, not_or] at h
      rw [decode_cons (Ne.symm h.1), decode_plain h.2]
      rfl

/-- After a text that can be read, reading goes on. -/
theorem decode_append {cs : List Char} {xs : List UInt8} (h : decode cs = some xs) (ds : List Char) :
    decode (cs ++ ds) = (decode ds).map (xs ++ ·) := by
  induction hn : cs.length using Nat.strong_induction_on generalizing cs xs with
  | _ n ih =>
      cases cs with
      | nil =>
          cases h
          rw [List.nil_append]
          exact Option.map_id'.symm
      | cons c cs =>
          rcases decode_cases h with ⟨a, b, es, x, y, rest, rfl, rfl, ha, hb, hrest, rfl⟩ | ⟨hc, rest, hrest, rfl⟩
          · have hrec := ih es.length (by rw [← hn]; simp only [List.length_cons]; omega) hrest rfl
            rw [List.cons_append, List.cons_append, List.cons_append, decode_percent ha hb, hrec, Option.map_map]
            rfl
          · have hrec := ih cs.length (by rw [← hn, List.length_cons]; omega) hrest rfl
            rw [List.cons_append, decode_cons hc, hrec, Option.map_map]
            simp only [Function.comp_def, List.append_assoc]

/-! ## What a percent sign costs -/

theorem length_utf8EncodeChar_of_lt {c : Char} (h : c.toNat < 128) : (String.utf8EncodeChar c).length = 1 := by
  have := utf8EncodeChar_ofNat c.toNat h
  rw [Char.ofNat_toNat] at this
  rw [this]
  rfl

/-- **Each percent sign costs two bytes.** -/
theorem length_decode {cs : List Char} {bs : List UInt8} (h : decode cs = some bs) :
    bs.length + 2 * cs.count '%' = (utf8 cs).length := by
  induction hn : cs.length using Nat.strong_induction_on generalizing cs bs with
  | _ n ih =>
      cases cs with
      | nil => cases h; rfl
      | cons c cs =>
          rcases decode_cases h with ⟨a, b, ds, x, y, rest, rfl, rfl, ha, hb, hrest, rfl⟩ | ⟨hc, rest, hrest, rfl⟩
          · obtain ⟨ha', _, halt⟩ := digitValue_lt ha
            obtain ⟨hb', _, hblt⟩ := digitValue_lt hb
            have hrec := ih ds.length (by rw [← hn]; simp only [List.length_cons]; omega) hrest rfl
            have hcount : ('%' :: a :: b :: ds).count '%' = ds.count '%' + 1 := by
              rw [List.count_cons_self, List.count_cons_of_ne ha', List.count_cons_of_ne hb']
            have hlen : (utf8 ('%' :: a :: b :: ds)).length = 1 + (1 + (1 + (utf8 ds).length)) := by
              rw [utf8_cons, utf8_cons, utf8_cons, List.length_append, List.length_append, List.length_append,
                length_utf8EncodeChar_of_lt halt, length_utf8EncodeChar_of_lt hblt]
              rfl
            rw [hcount, hlen, List.length_cons]
            omega
          · have hrec := ih cs.length (by rw [← hn, List.length_cons]; omega) hrest rfl
            rw [List.count_cons_of_ne hc, utf8_cons, List.length_append, List.length_append]
            omega

theorem digit_lt : ∀ n < 16, (digit n).toNat < 128 := by decide

/-- A byte that is not kept brings its own percent sign and two digits. -/
theorem length_encodeByte {keep : UInt8 → Bool} {b : UInt8} (h : keep b = true → b.toNat < 128) :
    (utf8 (encodeByte keep b)).length + 2 * (if keep b && b == 37 then 1 else 0)
      = 1 + 2 * (encodeByte keep b).count '%' := by
  have hb := b.toNat_lt
  unfold encodeByte
  cases hkeep : keep b with
  | true =>
      rw [if_pos rfl, utf8_cons, utf8_nil, List.append_nil, utf8EncodeChar_ofNat _ (h hkeep), Bool.true_and]
      by_cases h37 : b = 37
      · subst h37
        rfl
      · have hne := ofNat_ne_percent _ (h hkeep) fun hn => h37 (UInt8.toNat_inj.mp hn)
        rw [if_neg (by simpa using h37), List.count_cons_of_ne hne]
        rfl
  | false =>
      have hhi : b.toNat / 16 < 16 := by omega
      have hlo : b.toNat % 16 < 16 := by omega
      rw [if_neg nofun, List.count_cons_self, List.count_cons_of_ne (digit_ne_percent _ hhi),
        List.count_cons_of_ne (digit_ne_percent _ hlo), utf8_cons, utf8_cons, utf8_cons, List.length_append,
        List.length_append, List.length_append, length_utf8EncodeChar_of_lt (digit_lt _ hhi),
        length_utf8EncodeChar_of_lt (digit_lt _ hlo)]
      rfl

theorem length_encode {keep : UInt8 → Bool} (h : ∀ b, keep b = true → b.toNat < 128) (bs : List UInt8) :
    (utf8 (encode keep bs)).length + 2 * bs.countP (fun b => keep b && b == 37)
      = bs.length + 2 * (encode keep bs).count '%' := by
  induction bs with
  | nil => rfl
  | cons b bs ih =>
      have hbyte := length_encodeByte (h b)
      rw [encode, List.flatMap_cons, utf8_append, List.length_append, List.count_append, List.countP_cons, List.length_cons]
      rw [encode] at ih
      omega

/-- **What comes back of a text is shorter by two bytes for each percent sign kept.** -/
theorem length_decode_encode {keep : UInt8 → Bool} (h : ∀ b, keep b = true → b.toNat < 128) {bs ds : List UInt8}
    (hdec : decode (encode keep bs) = some ds) :
    ds.length + 2 * bs.countP (fun b => keep b && b == 37) = bs.length := by
  have hcost := length_decode hdec
  have hlen := length_encode h bs
  omega

theorem percent_ne_high {n m k : Nat} (hm : 0 < m) (hk : 128 ≤ k) (hlt : m + k ≤ 256) :
    (37 : UInt8) ≠ UInt8.ofNat (n % m + k) := by
  intro he
  have hmod := Nat.mod_lt n hm
  have hval := congrArg UInt8.toNat he
  rw [UInt8.toNat_ofNat', Nat.mod_eq_of_lt (by omega)] at hval
  have h37 : (37 : UInt8).toNat = 37 := rfl
  omega

/-- The byte of a percent sign is written for no other character. -/
theorem percent_of_mem_char {c : Char} (h : 37 ∈ String.utf8EncodeChar c) : c = '%' := by
  unfold String.utf8EncodeChar at h
  dsimp only at h
  split at h
  · rename_i hle
    have hval := congrArg UInt8.toNat (List.mem_singleton.mp h)
    rw [UInt8.toNat_ofNat', Nat.mod_eq_of_lt (by omega)] at hval
    exact Char.ext (UInt32.toNat_inj.mp hval.symm)
  · -- the bytes of the other characters are all above 127
    exfalso
    split at h
    · simp only [List.mem_cons, List.not_mem_nil, or_false] at h
      rcases h with h | h <;> exact percent_ne_high (by decide) (by decide) (by decide) h
    · split at h
      · simp only [List.mem_cons, List.not_mem_nil, or_false] at h
        rcases h with h | h | h <;> exact percent_ne_high (by decide) (by decide) (by decide) h
      · simp only [List.mem_cons, List.not_mem_nil, or_false] at h
        rcases h with h | h | h | h <;> exact percent_ne_high (by decide) (by decide) (by decide) h

theorem percent_mem_utf8 {cs : List Char} : 37 ∈ utf8 cs ↔ '%' ∈ cs := by
  rw [utf8, List.mem_flatMap]
  constructor
  · rintro ⟨c, hc, hmem⟩
    exact percent_of_mem_char hmem ▸ hc
  · intro h
    exact ⟨'%', h, by decide⟩

/-- **A text with something dropped, written and read, is the text** exactly if nothing was dropped and there is no
    percent sign in it. -/
theorem decode_encode_iff {keep : UInt8 → Bool} (hkeep : ∀ b, keep b = true → b.toNat < 128) (hpercent : keep 37 = true)
    {cs ds : List Char} (hsub : cs.Sublist ds) :
    decode (encode keep (utf8 cs)) = some (utf8 ds) ↔ cs = ds ∧ '%' ∉ ds := by
  constructor
  · intro h
    have hcost := length_decode_encode hkeep h
    have hbytes : (utf8 cs).Sublist (utf8 ds) := hsub.flatMap _
    have hle := hbytes.length_le
    have hsame : cs = ds := by
      have heq := hbytes.eq_of_length (by omega)
      rw [← String.toList_ofList (l := cs), ← String.toList_ofList (l := ds)] at heq
      exact String.ofList_injective (utf8_inj heq)
    refine ⟨hsame, fun hmem => ?_⟩
    have hpos : 0 < (utf8 cs).countP fun b => keep b && b == 37 :=
      List.countP_pos_iff.mpr ⟨37, percent_mem_utf8.mpr (hsame ▸ hmem), by rw [hpercent]; rfl⟩
    omega
  · rintro ⟨rfl, hno⟩
    refine decode_encode fun b hb hk => ⟨hkeep b hk, ?_⟩
    rintro rfl
    exact hno (percent_mem_utf8.mp hb)

theorem cons_of_append {a : Char} {cs ds es : List Char} (h : cs ++ '/' :: ds = a :: es) (ha : a ≠ '/') :
    ∃ cs', cs = a :: cs' ∧ es = cs' ++ '/' :: ds := by
  rcases List.append_eq_cons_iff.mp h with ⟨_, hslash⟩ | hcons
  · exact absurd (List.cons.inj hslash).1.symm ha
  · exact hcons

/-- **A slash stays a boundary.** -/
theorem decode_slash {cs ds : List Char} {bs : List UInt8} (h : decode (cs ++ '/' :: ds) = some bs) :
    ∃ xs ys, decode cs = some xs ∧ decode ds = some ys ∧ bs = xs ++ 47 :: ys := by
  induction hn : cs.length using Nat.strong_induction_on generalizing cs bs with
  | _ n ih =>
      cases cs with
      | nil =>
          rw [List.nil_append, decode_cons (by decide)] at h
          obtain ⟨ys, hys, rfl⟩ := Option.map_eq_some_iff.mp h
          exact ⟨[], ys, rfl, hys, rfl⟩
      | cons c cs =>
          rcases decode_cases h with ⟨a, b, es, x, y, rest, rfl, hcs, ha, hb, hrest, rfl⟩ | ⟨hc, rest, hrest, rfl⟩
          · -- the two digits come before the slash
            obtain ⟨cs, rfl, htail⟩ := cons_of_append hcs (digitValue_lt ha).2.1
            obtain ⟨cs, rfl, rfl⟩ := cons_of_append htail.symm (digitValue_lt hb).2.1
            obtain ⟨xs, ys, hxs, hys, rfl⟩ := ih cs.length (by rw [← hn]; simp only [List.length_cons]; omega) hrest rfl
            exact ⟨_, ys, by rw [decode_percent ha hb, hxs]; rfl, hys, rfl⟩
          · obtain ⟨xs, ys, hxs, hys, rfl⟩ := ih cs.length (by rw [← hn, List.length_cons]; omega) hrest rfl
            exact ⟨_, ys, by rw [decode_cons hc, hxs]; rfl, hys, (List.append_assoc ..).symm⟩

end PercentCoding
