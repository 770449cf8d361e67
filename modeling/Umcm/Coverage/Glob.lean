import Umcm.Ir.Value

/-!
# Wildcard patterns

`fnmatch.fnmatchcase`: a pattern matches a whole text; `*` stands for any text,
`?` for any character and `[...]` for a character of a set.
-/

namespace Umcm

/-- A set of characters: the ranges it lists, or everything else. -/
structure CharSet where
  negated : Bool
  ranges : List (Char × Char)

def CharSet.contains (s : CharSet) (c : Char) : Bool :=
  s.ranges.any (fun r => r.1 ≤ c && c ≤ r.2) != s.negated

inductive GlobToken where
  | star
  | any
  | set (s : CharSet)
  | char (c : Char)

namespace Glob

/-- The characters and ranges between the brackets. A hyphen at an end, or right
after a range, stands for itself. -/
def ranges : List Char → List (Char × Char)
  | lo :: '-' :: hi :: rest => (lo, hi) :: ranges rest
  | c :: rest => (c, c) :: ranges rest
  | [] => []

def charSet : List Char → CharSet
  | '!' :: rest => ⟨true, ranges rest⟩
  | content => ⟨false, ranges content⟩

/-- Split at the bracket that closes the set; a bracket that comes first is part
of the set. -/
def splitSet (pattern : List Char) : Option (List Char × List Char) :=
  let opening := match pattern with
    | '!' :: ']' :: _ => 2
    | '!' :: _ => 1
    | ']' :: _ => 1
    | _ => 0
  match (pattern.drop opening).span (fun c => c ≠ ']') with
  | (content, _ :: rest) => some (pattern.take opening ++ content, rest)
  | (_, []) => none

/-- A pattern has at most as many tokens as characters; `fuel` counts them. -/
def tokens : Nat → List Char → List GlobToken
  | 0, _ => []
  | _ + 1, [] => []
  | fuel + 1, '*' :: rest => .star :: tokens fuel rest
  | fuel + 1, '?' :: rest => .any :: tokens fuel rest
  | fuel + 1, '[' :: rest =>
    match splitSet rest with
    | some (content, rest) => .set (charSet content) :: tokens fuel rest
    | none => .char '[' :: tokens fuel rest
  | fuel + 1, c :: rest => .char c :: tokens fuel rest

def accepts : GlobToken → Char → Bool
  | .star, _ => false
  | .any, _ => true
  | .set s, c => s.contains c
  | .char c, c' => c = c'

def matchTokens : List GlobToken → List Char → Bool
  | [], text => text.isEmpty
  | .star :: rest, text => text.tails.any (matchTokens rest)
  | _ :: _, [] => false
  | token :: rest, c :: text => accepts token c && matchTokens rest text

end Glob

def fnmatchcase (text pattern : String) : Bool :=
  Glob.matchTokens (Glob.tokens pattern.length pattern.toList) text.toList

example : fnmatchcase "L2.busy[3]" "L2.b*[[][0-9]]" = true := by decide +kernel

end Umcm
