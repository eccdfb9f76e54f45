import StyleCalls.Nesting

/-! Argument lists. Groups and quoted strings are never cut; what lies between the cuts is
trimmed, and what is then empty is dropped. -/

namespace StyleCalls

inductive Delimiters where
  | commas
  | commasAndBlanks
deriving DecidableEq

namespace Delimiters

def holds : Delimiters → Char → Bool
  | commas, c => c = ','
  | commasAndBlanks, c => c = ',' || Unicode.isBlank c

/-- Whether an argument ends before `c`. -/
def cuts (d : Delimiters) (s : Nesting) (c : Char) : Bool :=
  s.bare && s.depth = 0 && d.holds c

/-- The text between the cuts, as it stands. A cut leaves the state alone, for a delimiter opens
and closes nothing. -/
def stretches (d : Delimiters) (s : Nesting) : Text → List Text
  | [] => [[]]
  | c :: t =>
    if d.cuts s c then [] :: stretches d s t
    else match stretches d (s.step c) t with
      | [] => [[c]]
      | p :: ps => (c :: p) :: ps

end Delimiters

namespace Arguments

def split (d : Delimiters) (raw : Text) : List Text :=
  ((d.stretches .outside raw.trim).map Text.trim).filter (!·.isEmpty)

def isBreak (c : Char) : Bool := c = ',' || Unicode.isBlank c

/-- The first argument and all that follows it, without regard to nesting. At most one comma is
taken for the delimiter; the rest is absent only where nothing ends the first argument. -/
def uncons (raw : Text) : Text × Option Text :=
  let first := raw.takeWhile (!isBreak ·)
  match raw.dropWhile (!isBreak ·) with
  | [] => (first, none)
  | rest =>
    let rest := Text.trimStart rest
    (first, some (Text.trimStart ((Text.after? [','] rest).getD rest)))

end Arguments
end StyleCalls
