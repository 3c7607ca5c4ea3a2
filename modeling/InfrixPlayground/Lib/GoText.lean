import Mathlib.Data.List.Basic

/-!
# `Lib.GoText` — the text functions of the Go standard library

Strings are Lean strings (sequences of code points); byte slices are lists of bytes. Only what a
program of this kind uses is here: trimming, prefixes and suffixes, containment, upper case, and
lower-case hexadecimal.
-/

namespace GoText

/-- A byte slice. -/
abbrev Bytes := List UInt8

/-- `unicode.IsSpace`: the ASCII and Latin-1 spaces, then the code points with property White_Space. -/
def isSpace (c : Char) : Bool :=
  c.toNat ∈ [0x09, 0x0A, 0x0B, 0x0C, 0x0D, 0x20, 0x85, 0xA0, 0x1680, 0x2028, 0x2029, 0x202F, 0x205F,
    0x3000] ∨ 0x2000 ≤ c.toNat ∧ c.toNat ≤ 0x200A

/-- `strings.TrimSpace`. -/
def trimSpace (s : String) : String :=
  String.ofList (((s.toList.dropWhile isSpace).reverse.dropWhile isSpace).reverse)

/-- `strings.TrimRight(s, "/")`. -/
def trimRightSlash (s : String) : String :=
  String.ofList ((s.toList.reverse.dropWhile (· == '/')).reverse)

/-- `strings.HasSuffix`. -/
def hasSuffix (s suffix : String) : Bool := suffix.toList.isSuffixOf s.toList

/-- Whether `sub` starts somewhere in a text. -/
def startsWithin (sub : List Char) : List Char → Bool
  | [] => sub.isEmpty
  | c :: s => sub.isPrefixOf (c :: s) || startsWithin sub s

/-- `strings.Contains`. -/
def contains (s sub : String) : Bool := startsWithin sub.toList s.toList

/-- `strings.ToUpper`, on the letters `a`–`z`. -/
def toUpper (s : String) : String := String.ofList (s.toList.map Char.toUpper)

/-- What precedes the first `sep`, and whether there is one (`strings.IndexByte` and a slice). -/
def before (s : String) (sep : Char) : String := String.ofList (s.toList.takeWhile (· != sep))

/-- `net.SplitHostPort`: the host and the port of a well-formed address. -/
def splitHostPort (hostport : String) : Option (String × String) :=
  let s := hostport.toList
  if ':' ∉ s then none
  else
    -- the port starts after the last colon
    let port := (s.reverse.takeWhile (· != ':')).reverse
    let rest := s.take (s.length - port.length - 1)
    if s.head? = some '[' then
      let host := (rest.drop 1).takeWhile (· != ']')
      if rest = '[' :: host ++ [']'] ∧ '[' ∉ host ++ port ∧ ']' ∉ port then
        some (String.ofList host, String.ofList port)
      else none
    else if ':' ∉ rest ∧ '[' ∉ s ∧ ']' ∉ s then some (String.ofList rest, String.ofList port)
    else none

example : splitHostPort "[::1]:8086" = some ("::1", "8086") := by decide +kernel

/-! ## Hexadecimal -/

/-- The two lower-case hex digits of a byte. -/
def hexPair (b : UInt8) : List Char := [(b.toNat / 16).digitChar, (b.toNat % 16).digitChar]

/-- `hex.EncodeToString`. -/
def hexEncodeToString (bs : Bytes) : String := String.ofList (bs.flatMap hexPair)

/-- The characters `hexEncodeToString` writes. -/
def IsHexDigit (c : Char) : Prop := c ∈ "0123456789abcdef".toList

theorem isHexDigit_digitChar : ∀ {n : Nat}, n < 16 → IsHexDigit n.digitChar := by
  unfold IsHexDigit; decide

theorem isHexDigit_of_mem_hexPair {b : UInt8} {c : Char} (h : c ∈ hexPair b) : IsHexDigit c := by
  have hb : b.toNat < 256 := b.toNat_lt
  simp only [hexPair, List.mem_cons, List.not_mem_nil, or_false] at h
  rcases h with rfl | rfl
  · exact isHexDigit_digitChar (by omega)
  · exact isHexDigit_digitChar (by omega)

/-- **Everything written is a hex digit.** -/
theorem isHexDigit_of_mem_encode {bs : Bytes} {c : Char} (h : c ∈ (hexEncodeToString bs).toList) :
    IsHexDigit c := by
  rw [hexEncodeToString, String.toList_ofList, List.mem_flatMap] at h
  obtain ⟨b, _, hc⟩ := h
  exact isHexDigit_of_mem_hexPair hc

/-- **Two digits for each byte.** -/
theorem length_hexEncode (bs : Bytes) : (hexEncodeToString bs).toList.length = 2 * bs.length := by
  rw [hexEncodeToString, String.toList_ofList]
  induction bs with
  | nil => rfl
  | cons b bs ih =>
      rw [List.flatMap_cons, List.length_append, ih, List.length_cons]
      show 2 + 2 * bs.length = 2 * (bs.length + 1)
      omega

theorem IsHexDigit.ne_slash {c : Char} (h : IsHexDigit c) : c ≠ '/' := by
  rintro rfl; unfold IsHexDigit at h; exact absurd h (by decide)

/-- Appending a nonempty text leaves nothing empty. -/
theorem append_ne_empty_left {s : String} (h : s ≠ "") (t : String) : s ++ t ≠ "" := by
  intro he
  exact h (String.append_eq_empty_iff.mp he).1

end GoText
