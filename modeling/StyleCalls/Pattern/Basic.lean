import StyleCalls.Text.Basic
import StyleCalls.Unicode.Fold
import StyleCalls.Unicode.Word

/-! Patterns find calls: a name directly before an opening parenthesis, in any case. -/

namespace StyleCalls

/-- A call found in a text: the name as spelled there and the byte offset of that spelling. -/
structure Site where
  name : Text
  offset : Nat
deriving DecidableEq

/-- Names that read as words have to stand apart from the word before; the others match anywhere. -/
structure Pattern where
  idents : List Text
  symbols : List Text
deriving DecidableEq

namespace Pattern

def isIdent : Text → Bool
  | [] => false
  | c :: _ => Unicode.isAlphabetic c || c = '_'

/-- The pattern of the names that are not empty, if there are any. -/
def ofNames? (names : List Text) : Option Pattern :=
  match names.filter (!·.isEmpty) with
  | [] => none
  | names => some ⟨names.filter isIdent, names.filter (!isIdent ·)⟩

/-- How many names it has, repeated ones counted again. -/
def size (p : Pattern) : Nat := p.idents.length + p.symbols.length

/-- The spelling of `name` at the start of a text, if a parenthesis follows it. -/
def spelling? : Text → Text → Option Text
  | [], '(' :: _ => some []
  | n :: ns, c :: t => if Unicode.sameFold n c then (spelling? ns t).map (c :: ·) else none
  | _, _ => none

def firstSpelling? (names : List Text) (t : Text) : Option Text := names.findSome? (spelling? · t)

/-- What a pattern recognises at the start of a text. A hyphen may come before a word. -/
structure Match where
  isWord : Bool
  hyphen : Bool
  name : Text

/-- The number of characters up to and including the parenthesis. -/
def Match.length (m : Match) : Nat := (if m.hyphen then 1 else 0) + m.name.length + 1

def hyphenated? (p : Pattern) : Text → Option Match
  | '-' :: t => (firstSpelling? p.idents t).map (⟨true, true, ·⟩)
  | _ => none

/-- Words are tried before symbols, the hyphen before its absence, and names in their order. -/
def match? (p : Pattern) (t : Text) : Option Match :=
  p.hyphenated? t <|> (firstSpelling? p.idents t).map (⟨true, false, ·⟩) <|>
    (firstSpelling? p.symbols t).map (⟨false, false, ·⟩)

/-- Whether a word may begin after `before`, the last character so far. -/
def isBoundary : Option Char → Bool
  | none => true
  | some c => !(Unicode.isAlphanumeric c || c = '_' || c = '-')

/-- What is recognised at the start of the text, unless it is the tail of a longer word. -/
def accepted? (p : Pattern) (before : Option Char) (t : Text) : Option Match :=
  (p.match? t).filter fun m => !m.isWord || isBoundary before

/-- The sites in a text that starts at byte `offset` of the whole, its first `skipped` characters
being part of a site already found. Sites do not overlap: the next one begins after the
parenthesis of the last. -/
def sitesFrom (p : Pattern) (before : Option Char) (offset skipped : Nat) : Text → List Site
  | [] => []
  | c :: t =>
    match skipped with
    | n + 1 => sitesFrom p (some c) (offset + c.utf8Size) n t
    | 0 =>
      match p.accepted? before (c :: t) with
      | none => sitesFrom p (some c) (offset + c.utf8Size) 0 t
      | some m =>
        ⟨m.name, if m.hyphen then offset + 1 else offset⟩ ::
          sitesFrom p (some c) (offset + c.utf8Size) (m.length - 1) t

def findAll (p : Pattern) (t : Text) : List Site := p.sitesFrom none 0 0 t

def occursIn (p : Pattern) (t : Text) : Bool := !(p.findAll t).isEmpty

end Pattern
end StyleCalls
