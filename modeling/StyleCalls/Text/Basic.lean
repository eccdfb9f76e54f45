import StyleCalls.Unicode.Blank

/-! Text as a list of characters. Offsets into a text count the bytes of its UTF-8 form. -/

namespace StyleCalls

abbrev Text := List Char

namespace Text

/-- The number of bytes in UTF-8. -/
def size : Text → Nat
  | [] => 0
  | c :: t => c.utf8Size + size t

/-- The text before and the text after a byte offset; `none` inside a character or past the end. -/
def splitAt? : Nat → Text → Option (Text × Text)
  | 0, t => some ([], t)
  | _ + 1, [] => none
  | n + 1, c :: t =>
    if c.utf8Size ≤ n + 1 then
      (splitAt? (n + 1 - c.utf8Size) t).map fun p => (c :: p.1, p.2)
    else none

def bytes (t : Text) : List UInt8 := t.flatMap String.utf8EncodeChar

def trimStart (t : Text) : Text := t.dropWhile Unicode.isBlank

def trimEnd (t : Text) : Text := (t.reverse.dropWhile Unicode.isBlank).reverse

def trim (t : Text) : Text := t.trimStart.trimEnd

/-- Lower case for ASCII letters, every other character as it is. -/
def asciiLower (t : Text) : Text := t.map Char.toLower

def eqIgnoringAsciiCase (s t : Text) : Bool := s.asciiLower = t.asciiLower

/-- What follows `start`, if the text starts with it. -/
def after? : Text → Text → Option Text
  | [], t => some t
  | _ :: _, [] => none
  | a :: start, c :: t => if a = c then after? start t else none

/-- What precedes `stop`, if the text ends with it. -/
def before? (stop t : Text) : Option Text := (after? stop.reverse t.reverse).map List.reverse

/-- The stretches between the characters of `separates`, empty stretches included. -/
def splitAll (separates : Char → Bool) : Text → List Text
  | [] => [[]]
  | c :: t =>
    if separates c then [] :: splitAll separates t
    else match splitAll separates t with
      | [] => [[c]]
      | p :: ps => (c :: p) :: ps

/-- The non-empty stretches between the characters of `separates`. -/
def pieces (separates : Char → Bool) (t : Text) : List Text :=
  (splitAll separates t).filter (!·.isEmpty)

theorem size_append (s t : Text) : size (s ++ t) = size s + size t := by
  induction s with
  | nil => simp [size]
  | cons c s ih => simp [size, ih, Nat.add_assoc]

theorem splitAt?_size_append (s t : Text) : splitAt? (size s) (s ++ t) = some (s, t) := by
  induction s with
  | nil => simp [size, splitAt?]
  | cons c s ih =>
    have hc : 0 < c.utf8Size := Char.utf8Size_pos c
    obtain ⟨n, hn⟩ : ∃ n, c.utf8Size + size s = n + 1 := ⟨c.utf8Size + size s - 1, by omega⟩
    rw [List.cons_append, size, hn, splitAt?, if_pos (by omega),
      show n + 1 - c.utf8Size = size s by omega, ih]
    rfl

theorem splitAt?_eq_some {n : Nat} {t before after : Text}
    (h : splitAt? n t = some (before, after)) : t = before ++ after ∧ before.size = n := by
  fun_induction splitAt? n t generalizing before with
  | case1 => simp_all [size]
  | case2 => simp at h
  | case3 n c t hle ih =>
    obtain ⟨⟨b, a⟩, hb, hba⟩ := Option.map_eq_some_iff.1 h
    obtain ⟨rfl, rfl⟩ := Prod.mk.inj hba
    obtain ⟨rfl, hs⟩ := ih hb
    exact ⟨rfl, by simp only [size]; omega⟩
  | case4 => simp at h

theorem after?_eq_some_iff {start t rest : Text} :
    after? start t = some rest ↔ t = start ++ rest := by
  induction start generalizing t with
  | nil => rw [after?, Option.some.injEq, List.nil_append]
  | cons a start ih =>
    cases t with
    | nil => simp [after?]
    | cons c t =>
      rw [after?, Option.ite_none_right_eq_some, ih, List.cons_append, List.cons.injEq,
        eq_comm (a := a)]

end Text
end StyleCalls
