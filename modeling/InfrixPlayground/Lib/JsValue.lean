import InfrixPlayground.Lib.Json

/-!
# `Lib.JsValue` — what a script does with JSON values

The operations a script applies to values that came out of `JSON.parse`: truthiness and `||`, reading and
assigning a property, the first element, `Number(v)` and the bits of a byte. A missing property is
`undefined`, here `none`; an operation that throws says which kind of error.
-/

namespace Decimal

/-- A natural number. -/
def ofNat (n : Nat) : Decimal := norm false (Digits.ofNat n) (Digits.ofNat n).1.length

/-- The integer before the point, towards zero. -/
def trunc (d : Decimal) : Int :=
  let n : Nat :=
    if d.point ≤ 0 then 0
    else Nat.ofDigitChars 10 (d.digits.1.take d.point.toNat) 0 * 10 ^ (d.point.toNat - d.digits.1.length)
  if d.negative then -n else n

/-- A number above zero. -/
def Positive (d : Decimal) : Prop := d.negative = false ∧ d.digits.1 ≠ []

theorem trunc_ofNat : ∀ n < 256, trunc (ofNat n) = n := by decide +kernel

end Decimal

namespace Js

/-- A value, or `undefined`. -/
abbrev Value := Option Json

/-- Whether a condition takes the value for true. -/
def truthy : Value → Bool
  | none => false
  | some .null => false
  | some (.bool b) => b
  | some (.num n) => !n.digits.1.isEmpty
  | some (.str s) => s != ""
  | some (.arr _) => true
  | some (.obj _) => true

/-- `a || b`. -/
def or (a b : Value) : Value := if truthy a then a else b

def emptyObject : Json := .obj []

/-- `v || {}`. -/
def orEmpty (v : Value) : Json := if truthy v then v.getD emptyObject else emptyObject

/-- The property of a value that has properties; none but an object's own is asked for. -/
def prop (k : String) : Json → Value
  | .obj ms => Members.get k ms
  | _ => none

/-- `v.k`. -/
def get (k : String) : Value → Except String Value
  | none => .error "TypeError"
  | some .null => .error "TypeError"
  | some v => .ok (prop k v)

/-- `v[0]`. -/
def first : Value → Except String Value
  | none => .error "TypeError"
  | some .null => .error "TypeError"
  | some (.arr xs) => .ok xs.head?
  | some (.str s) => .ok (s.toList.head?.map fun c => .str (String.ofList [c]))
  | some v => .ok (prop "0" v)

/-- `v.k = x` in a module. A property an array gains that way is not among its elements, so its JSON
    value stays as it is. -/
def assign (k : String) (x : Json) : Json → Except String Json
  | .obj ms => .ok (.obj (Members.set k x ms))
  | .arr xs => .ok (.arr xs)
  | _ => .error "TypeError"

/-! ## Editing in place -/

/-- Edit the value of a property where it stands, if there is one. -/
def editProp (k : String) (f : Json → Except String Json) : Json → Except String Json
  | .obj ms =>
    match Members.get k ms with
    | none => .ok (.obj ms)
    | some v => do .ok (.obj (Members.set k (← f v) ms))
  | v => .ok v

/-- `const x = v[0]; if (x) …`, where `…` edits `x` in place. A character of a string is a copy. -/
def editFirst (f : Json → Except String Json) : Json → Except String Json
  | .arr (x :: xs) => if truthy (some x) then do .ok (.arr ((← f x) :: xs)) else .ok (.arr (x :: xs))
  | .obj ms =>
    match Members.get "0" ms with
    | none => .ok (.obj ms)
    | some x => if truthy (some x) then do .ok (.obj (Members.set "0" (← f x) ms)) else .ok (.obj ms)
  | .str s =>
    match s.toList with
    | [] => .ok (.str s)
    | c :: _ => do
      let _ ← f (.str (String.ofList [c]))
      .ok (.str s)
  | v => .ok v

/-! ## Numbers -/

/-- What `String(v).trim()` takes away. -/
def isTrimmed (c : Char) : Bool :=
  c == ' ' || (9 ≤ c.toNat && c.toNat ≤ 13) || c == '\u00a0' || c == '\u1680' ||
    (0x2000 ≤ c.toNat && c.toNat ≤ 0x200a) || c == '\u2028' || c == '\u2029' || c == '\u202f' ||
    c == '\u205f' || c == '\u3000' || c == '\ufeff'

/-- A number in another base, with its prefix taken off. -/
def radix (base : Nat) (cs : List Char) : Option Decimal :=
  if cs = [] then none
  else
    (cs.foldl (fun acc c => acc.bind fun n =>
      (Json.hexVal c).bind fun d => if d < base then some (n * base + d) else none) (some 0)).map
        Decimal.ofNat

/-- A decimal literal without its sign: digits before or after the point, and an exponent. -/
def decimalLiteral (negative : Bool) (cs : List Char) : Option Decimal :=
  let (int, cs) := Digits.span cs
  let (frac, cs) := match cs with
    | '.' :: cs => Digits.span cs
    | cs => (Digits.empty, cs)
  if int.1 = [] ∧ frac.1 = [] then none
  else
    match Decimal.readExponent cs with
    | some (e, []) => some (Decimal.norm negative (int.append frac) (int.1.length + e))
    | _ => none

/-- `Number(s)`; `none` is `NaN` or an infinity. -/
def stringToNumber (s : String) : Option Decimal :=
  let cs := (s.toList.dropWhile isTrimmed).reverse.dropWhile isTrimmed |>.reverse
  match cs with
  | [] => some .zero
  | '0' :: 'x' :: cs => radix 16 cs
  | '0' :: 'X' :: cs => radix 16 cs
  | '0' :: 'o' :: cs => radix 8 cs
  | '0' :: 'O' :: cs => radix 8 cs
  | '0' :: 'b' :: cs => radix 2 cs
  | '0' :: 'B' :: cs => radix 2 cs
  | '-' :: cs => decimalLiteral true cs
  | '+' :: cs => decimalLiteral false cs
  | cs => decimalLiteral false cs

mutual

/-- `String(v)`. -/
def toText : Json → String
  | .null => "null"
  | .bool true => "true"
  | .bool false => "false"
  | .num n => String.ofList n.write
  | .str s => s
  | .arr xs => join xs
  | .obj _ => "[object Object]"

/-- `xs.join()`, where `null` leaves its place empty. -/
def join : List Json → String
  | [] => ""
  | [.null] => ""
  | [x] => toText x
  | .null :: xs => "," ++ join xs
  | x :: xs => toText x ++ "," ++ join xs

end

/-- `Number(v)`; `none` is `NaN` or an infinity. -/
def toNumber : Json → Option Decimal
  | .null => some .zero
  | .bool b => some (.ofNat b.toNat)
  | .num n => some n
  | .str s => stringToNumber s
  | .arr xs => stringToNumber (join xs)
  | .obj _ => none

/-- The value of a byte. -/
def byte (n : Nat) : Json := .num (.ofNat n)

/-- `v & 0xff`. -/
def lowByte (v : Json) : Nat := (((toNumber v).getD .zero).trunc % 256).toNat

/-- `(v ^ 0xff) & 0xff`. -/
def flipByte (v : Json) : Json := byte (255 - lowByte v)

/-- An array of bytes. -/
def bytes (bs : List UInt8) : Json := .arr (bs.map fun b => byte b.toNat)

/-! ## Laws -/

theorem or_of_truthy {a : Value} (h : truthy a = true) (b : Value) : or a b = a := if_pos h

theorem or_of_falsy {a : Value} (h : truthy a = false) (b : Value) : or a b = b :=
  if_neg (by rw [h]; exact Bool.false_ne_true)

theorem get_obj (k : String) (ms : List (String × Json)) :
    get k (some (.obj ms)) = .ok (Members.get k ms) := rfl

theorem ok_bind {α β : Type} (a : α) (f : α → Except String β) : (Except.ok a >>= f) = f a := rfl

/-- Only an object has properties of its own. -/
theorem obj_of_get {k : String} {v w : Json} (h : get k (some v) = .ok (some w)) : ∃ ms, v = .obj ms := by
  cases v with
  | obj ms => exact ⟨ms, rfl⟩
  | null => exact absurd h (by simp [Js.get])
  | _ => exact absurd (Except.ok.inj h) (by simp [prop])

theorem bind_eq_ok {α β : Type} {x : Except String α} {f : α → Except String β} {b : β} :
    (x >>= f) = .ok b ↔ ∃ a, x = .ok a ∧ f a = .ok b := by
  cases x with
  | error e => exact ⟨fun h => absurd h (by simp [bind, Except.bind]), fun ⟨_, h, _⟩ => absurd h (by simp)⟩
  | ok a => exact ⟨fun h => ⟨a, rfl, h⟩, fun ⟨_, h, hb⟩ => by cases h; exact hb⟩

theorem byte_injective {m n : Nat} (hm : m < 256) (hn : n < 256) (h : byte m = byte n) : m = n := by
  rw [byte, byte, Json.num.injEq] at h
  have := congrArg Decimal.trunc h
  rw [Decimal.trunc_ofNat m hm, Decimal.trunc_ofNat n hn] at this
  omega

theorem lowByte_lt (v : Json) : lowByte v < 256 := by unfold lowByte; omega

theorem lowByte_byte {n : Nat} (h : n < 256) : lowByte (byte n) = n := by
  show ((Decimal.ofNat n).trunc % 256).toNat = n
  rw [Decimal.trunc_ofNat n h]
  omega

/-- **A flipped byte is another value**, whatever was flipped. -/
theorem flipByte_ne (v : Json) : flipByte v ≠ v := by
  intro h
  have hlt := lowByte_lt v
  -- were it the same, its low byte would be its own complement
  have hlow : lowByte v = 255 - lowByte v := (congrArg lowByte h).symm.trans (lowByte_byte (by omega))
  omega

theorem bytes_injective {a b : List UInt8} (h : bytes a = bytes b) : a = b := by
  rw [bytes, bytes, Json.arr.injEq] at h
  refine List.map_injective_iff.mpr ?_ h
  intro x y hxy
  exact UInt8.toNat_inj.mp (byte_injective x.toNat_lt y.toNat_lt hxy)

/-! ## Values stay values -/

open Json (Wf)

theorem wf_get {ms : List (String × Json)} (h : Wf (.obj ms)) {k : String} {v : Json}
    (hv : Members.get k ms = some v) : Wf v := by
  cases h with
  | obj hs h => exact h _ (Members.mem_of_get hv)

theorem wf_set {ms : List (String × Json)} (h : Wf (.obj ms)) (k : String) {v : Json} (hv : Wf v) :
    Wf (.obj (Members.set k v ms)) := by
  cases h with
  | obj hs h =>
      refine .obj hs.set fun m hm => ?_
      rcases Members.mem_set hm with rfl | hm
      · exact hv
      · exact h m hm

theorem wf_bytes (bs : List UInt8) : Wf (bytes bs) := by
  refine .arr fun x hx => ?_
  obtain ⟨b, _, rfl⟩ := List.mem_map.mp hx
  exact .num _

/-- An edit that makes values of values. -/
def Keeps (f : Json → Except String Json) : Prop := ∀ v v', Wf v → f v = .ok v' → Wf v'

theorem keeps_assign (k : String) {x : Json} (hx : Wf x) : Keeps (assign k x) := by
  intro v v' hv h
  cases v with
  | obj ms => cases h; exact wf_set hv k hx
  | arr xs => cases h; exact hv
  | _ => exact absurd h (by simp [assign])

theorem Keeps.editProp {f : Json → Except String Json} (hf : Keeps f) (k : String) :
    Keeps (editProp k f) := by
  intro v v' hv h
  cases v with
  | obj ms =>
      simp only [Js.editProp] at h
      split at h
      · cases h; exact hv
      · rename_i w hw
        obtain ⟨w', hw', hb⟩ := bind_eq_ok.mp h
        cases hb
        exact wf_set hv k (hf w w' (wf_get hv hw) hw')
  | _ => cases h; exact hv

theorem Keeps.editFirst {f : Json → Except String Json} (hf : Keeps f) : Keeps (editFirst f) := by
  intro v v' hv h
  cases v with
  | obj ms =>
      simp only [Js.editFirst] at h
      split at h
      · cases h; exact hv
      · rename_i w hw
        split at h
        · obtain ⟨w', hw', hb⟩ := bind_eq_ok.mp h
          cases hb
          exact wf_set hv "0" (hf w w' (wf_get hv hw) hw')
        · cases h; exact hv
  | arr xs =>
      cases xs with
      | nil => cases h; exact hv
      | cons x xs =>
          cases hv with
          | arr hall =>
              obtain ⟨hx, hxs⟩ := List.forall_mem_cons.mp hall
              simp only [Js.editFirst] at h
              split at h
              · obtain ⟨x', hx', hb⟩ := bind_eq_ok.mp h
                cases hb
                exact .arr (List.forall_mem_cons.mpr ⟨hf x x' hx hx', hxs⟩)
              · cases h; exact .arr hall
  | str s =>
      simp only [Js.editFirst] at h
      split at h
      · cases h; exact hv
      · obtain ⟨_, _, hb⟩ := bind_eq_ok.mp h
        cases hb; exact hv
  | _ => cases h; exact hv

end Js
