import AccessGuard.Number.Numeral
import AccessGuard.Text.Hex

/-!
# Tokens of JSON

A text is cut into tokens from left to right. Where no token begins, the cutting ends with
`junk`. Quoted text may hold an escape that is half of a pair and so names no character; such
a text is a token, but has no content.

* `Token.read?`: the first token of a text that does not begin with white space.
* `Token.all`: all tokens of a text.
-/

namespace AccessGuard

/-- A token; `junk` stands for the rest of a text in which none begins. -/
inductive Token where
  | null
  | bool (b : Bool)
  | numeral (n : Numeral)
  | quoted (content : Option (List Char))
  | openArray
  | closeArray
  | openObject
  | closeObject
  | comma
  | colon
  | junk
deriving DecidableEq

/-- White space between tokens. -/
def isGap (c : Char) : Bool := c == ' ' || c == '\n' || c == '\t' || c == '\r'

namespace Quoted

/-- A part of a quoted text: a character, or a code unit written in hexadecimal. -/
inductive Piece where
  | char (c : Char)
  | unit (n : Nat)

/-- The code unit of four digits. -/
def unit? (a b c d : Char) : Option Nat :=
  match hexDigit? a, hexDigit? b, hexDigit? c, hexDigit? d with
  | some a, some b, some c, some d => some (a.val * 0x1000 + b.val * 0x100 + c.val * 0x10 + d.val)
  | _, _, _, _ => none

/-- The character that is written with a backslash. -/
def unescape? : Char → Option Char
  | '"' => some '"'
  | '\\' => some '\\'
  | '/' => some '/'
  | 'b' => some '\x08'
  | 'f' => some '\x0c'
  | 'n' => some '\n'
  | 'r' => some '\r'
  | 't' => some '\t'
  | _ => none

/-- The pieces up to the closing quote, and the text after it. Controls must be escaped. -/
def pieces? : List Char → Option (List Piece × List Char)
  | [] => none
  | '"' :: rest => some ([], rest)
  | '\\' :: 'u' :: a :: b :: c :: d :: rest =>
    match unit? a b c d, pieces? rest with
    | some n, some (ps, after) => some (.unit n :: ps, after)
    | _, _ => none
  | '\\' :: c :: rest =>
    match unescape? c, pieces? rest with
    | some e, some (ps, after) => some (.char e :: ps, after)
    | _, _ => none
  | c :: rest =>
    if c.toNat < 0x20 then none
    else (pieces? rest).map fun (ps, after) => (.char c :: ps, after)

/-- The characters of the pieces. A unit of the upper half of a pair must be followed by one
of the lower half, which stands nowhere else. -/
def content? : List Piece → Option (List Char)
  | [] => some []
  | .char c :: ps => (content? ps).map (c :: ·)
  | .unit n :: ps =>
    if 0xD800 ≤ n ∧ n < 0xDC00 then
      match ps with
      | .unit m :: ps =>
        if 0xDC00 ≤ m ∧ m < 0xE000 then
          (content? ps).map (Char.ofNat (0x10000 + (n - 0xD800) * 0x400 + (m - 0xDC00)) :: ·)
        else none
      | _ => none
    else if 0xDC00 ≤ n ∧ n < 0xE000 then none
    else (content? ps).map (Char.ofNat n :: ·)

theorem pieces?_length {cs after : List Char} {ps : List Piece}
    (h : pieces? cs = some (ps, after)) : after.length < cs.length := by
  fun_induction pieces? cs generalizing ps with
  | case1 => cases h
  | case2 => cases h; simp
  | case3 =>
    rename_i hp _ ih
    cases h
    have := ih hp
    simp only [List.length_cons]; omega
  | case4 => cases h
  | case5 =>
    rename_i hp _ ih
    cases h
    have := ih hp
    simp only [List.length_cons]; omega
  | case6 => cases h
  | case7 => cases h
  | case8 =>
    rename_i ih
    obtain ⟨⟨qs, r⟩, hq, he⟩ := Option.map_eq_some_iff.1 h
    cases he
    have := ih hq
    simp only [List.length_cons]; omega

end Quoted

namespace Token

/-- The token at the beginning of a text. -/
def read? : List Char → Option (Token × List Char)
  | '[' :: rest => some (openArray, rest)
  | ']' :: rest => some (closeArray, rest)
  | '\x7b' :: rest => some (openObject, rest)
  | '\x7d' :: rest => some (closeObject, rest)
  | ',' :: rest => some (comma, rest)
  | ':' :: rest => some (colon, rest)
  | 'n' :: 'u' :: 'l' :: 'l' :: rest => some (null, rest)
  | 't' :: 'r' :: 'u' :: 'e' :: rest => some (bool true, rest)
  | 'f' :: 'a' :: 'l' :: 's' :: 'e' :: rest => some (bool false, rest)
  | '"' :: rest => (Quoted.pieces? rest).map fun (ps, after) => (quoted (Quoted.content? ps), after)
  | cs => (Numeral.read? cs).map fun (n, after) => (numeral n, after)

theorem read?_length {cs after : List Char} {t : Token} (h : read? cs = some (t, after)) :
    after.length < cs.length := by
  unfold read? at h
  split at h
  case h_10 =>
    obtain ⟨⟨ps, r⟩, hp, he⟩ := Option.map_eq_some_iff.1 h
    cases he
    have := Quoted.pieces?_length hp
    simp only [List.length_cons]; omega
  case h_11 =>
    obtain ⟨⟨n, r⟩, hn, he⟩ := Option.map_eq_some_iff.1 h
    cases he
    exact Numeral.read?_length hn
  all_goals cases h; simp only [List.length_cons]; omega

/-- The tokens of a text, up to the first place where none begins. -/
def all : List Char → List Token
  | [] => []
  | c :: cs =>
    if isGap c then all cs
    else
      match h : read? (c :: cs) with
      | none => [junk]
      | some (t, after) =>
        have := read?_length h
        t :: all after
termination_by cs => cs.length
decreasing_by
  · exact Nat.lt_succ_self _
  · assumption

end Token

end AccessGuard
