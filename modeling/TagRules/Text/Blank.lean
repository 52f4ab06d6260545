/-!
Blank space around a piece of text. Which characters are blank is the
White_Space property of Unicode, so that a no-break space or a line separator
trims like an ordinary space, and a zero-width space does not.
-/

namespace TagRules.Text

/-- The characters with the White_Space property. -/
def isBlank (c : Char) : Bool :=
  let n := c.toNat
  (0x09 ≤ n && n ≤ 0x0d) || n == 0x20 || n == 0x85 || n == 0xa0 || n == 0x1680 ||
    (0x2000 ≤ n && n ≤ 0x200a) || n == 0x2028 || n == 0x2029 || n == 0x202f || n == 0x205f ||
    n == 0x3000

def trimStart (text : List Char) : List Char :=
  text.dropWhile isBlank

def trimEnd (text : List Char) : List Char :=
  (text.reverse.dropWhile isBlank).reverse

def trim (text : List Char) : List Char :=
  trimEnd (trimStart text)

/-- A name as it is compared with the known ones: without blanks around it, and with
its ASCII letters in lower case. -/
def folded (name : String) : String :=
  String.ofList ((trim name.toList).map Char.toLower)

def isAllBlank (text : List Char) : Bool :=
  text.all isBlank

def byteSize : List Char → Nat
  | [] => 0
  | c :: rest => c.utf8Size + byteSize rest

@[simp] theorem byteSize_nil : byteSize [] = 0 := rfl

@[simp] theorem byteSize_cons (c : Char) (rest : List Char) :
    byteSize (c :: rest) = c.utf8Size + byteSize rest := rfl

@[simp] theorem byteSize_append (front back : List Char) :
    byteSize (front ++ back) = byteSize front + byteSize back := by
  induction front with
  | nil => simp
  | cons c rest ih => simp [ih, Nat.add_assoc]

/-- The text before its last character, if that character is `last`. -/
def beforeLast? (last : Char) (text : List Char) : Option (List Char) :=
  if text.getLast? = some last then some text.dropLast else none

theorem beforeLast?_eq_some {last : Char} {text front : List Char} :
    beforeLast? last text = some front ↔ text = front ++ [last] := by
  rw [beforeLast?]
  constructor
  · intro h
    split at h
    · next hlast =>
      obtain ⟨init, rfl⟩ := List.getLast?_eq_some_iff.1 hlast
      simp_all
    · cases h
  · rintro rfl
    simp

/-- What `trimStart` removes is blank, and nothing else is lost. -/
theorem takeWhile_append_trimStart (text : List Char) :
    text.takeWhile isBlank ++ trimStart text = text :=
  List.takeWhile_append_dropWhile

end TagRules.Text
