import StyleCalls.Arith.Token
import StyleCalls.Decimal.Nearest

/-! From bytes to tokens. Digits with at most one point go together as far as they reach, blanks
are skipped, and every other byte is a token of its own. -/

namespace StyleCalls.Arith

/-- The digits of a number read so far, with those after the point once there is one. -/
structure Run where
  whole : Text
  fraction : Option Text

namespace Run

def start? (c : Char) : Option Run :=
  if Decimal.isDigit c then some ⟨[c], none⟩
  else if c = '.' then some ⟨[], some []⟩
  else none

def extend? (r : Run) (c : Char) : Option Run :=
  match r.fraction with
  | none =>
    if Decimal.isDigit c then some { r with whole := r.whole ++ [c] }
    else if c = '.' then some { r with fraction := some [] }
    else none
  | some ds => if Decimal.isDigit c then some { r with fraction := some (ds ++ [c]) } else none

def text (r : Run) : Text :=
  match r.fraction with
  | none => r.whole
  | some ds => r.whole ++ '.' :: ds

def token (r : Run) : Except Error Token :=
  match Decimal.ofRun? false r.whole (r.fraction.getD []) 0 with
  | some d => .ok (.number d.toBinary)
  | none => .error (.invalidNumber r.text)

end Run

namespace Token

def isSkipped (c : Char) : Bool := c = ' ' || c = '\t' || c = '\n' || c = '\r'

/-- The token of a byte outside numbers; blanks have none. -/
def ofByte (b : UInt8) : List Token :=
  let c := Char.ofNat b.toNat
  if isSkipped c then []
  else if c = '+' then [plus]
  else if c = '-' then [minus]
  else if c = '*' then [star]
  else if c = '/' then [slash]
  else if c = '(' then [leftParen]
  else if c = ')' then [rightParen]
  else [unknown b]

/-- Tokens of the bytes that follow a number under way, if there is one. -/
def scanFrom : Option Run → List UInt8 → Except Error (List Token)
  | none, [] => .ok []
  | some r, [] => r.token.map ([·])
  | none, b :: bs =>
    match Run.start? (Char.ofNat b.toNat) with
    | some r => scanFrom (some r) bs
    | none => (scanFrom none bs).map (ofByte b ++ ·)
  | some r, b :: bs =>
    match r.extend? (Char.ofNat b.toNat) with
    | some r => scanFrom (some r) bs
    | none => do
      let t ← r.token
      match Run.start? (Char.ofNat b.toNat) with
      | some r => return t :: (← scanFrom (some r) bs)
      | none => return t :: (ofByte b ++ (← scanFrom none bs))

def scan (source : Text) : Except Error (List Token) := scanFrom none source.bytes

end Token
end StyleCalls.Arith
