/-!
# White space

The characters with the Unicode property White_Space, and texts cut at them.
-/

namespace SatSearch

namespace Blank

/-- The first and last code points of the ranges of White_Space. -/
def ranges : List (Nat × Nat) :=
  [(0x09, 0x0d), (0x20, 0x20), (0x85, 0x85), (0xa0, 0xa0), (0x1680, 0x1680), (0x2000, 0x200a),
    (0x2028, 0x2029), (0x202f, 0x202f), (0x205f, 0x205f), (0x3000, 0x3000)]

def isBlank (c : Char) : Bool := ranges.any fun r => r.1 ≤ c.toNat && c.toNat ≤ r.2

theorem isBlank_of_isWhitespace {c : Char} (h : c.isWhitespace) : isBlank c := by
  simp [Char.isWhitespace] at h
  rcases h with ((rfl | rfl) | rfl) | rfl <;> decide

def trimLeft (cs : List Char) : List Char := cs.dropWhile isBlank

def trimRight (cs : List Char) : List Char := (trimLeft cs.reverse).reverse

def trim (cs : List Char) : List Char := trimRight (trimLeft cs)

/-- Puts a token in front of others unless it is empty. -/
def consToken (token : List Char) (tokens : List (List Char)) : List (List Char) :=
  if token.isEmpty then tokens else token :: tokens

/-- The token that a text goes on with, and the tokens after it. -/
def splitToken : List Char → List Char × List (List Char)
  | [] => ([], [])
  | c :: cs =>
    let (token, tokens) := splitToken cs
    if isBlank c then ([], consToken token tokens) else (c :: token, tokens)

/-- The longest runs of characters that are not blank. -/
def tokens (cs : List Char) : List (List Char) :=
  let (token, tokens) := splitToken cs
  consToken token tokens

end Blank

end SatSearch
