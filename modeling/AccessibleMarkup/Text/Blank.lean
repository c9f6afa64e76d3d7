/-! White space, in the wide sense that attribute lists, labels and numerals use. -/
namespace AccessibleMarkup.Text

/-- White space: the ASCII blanks and information separators, next line, and the Unicode spaces
and line separators. A zero-width space is not among them. -/
def isBlank (c : Char) : Bool :=
  let code := c.toNat
  if code < 0x80 then (0x09 ≤ code && code ≤ 0x0D) || (0x1C ≤ code && code ≤ 0x20)
  else
    code = 0x85 || code = 0xA0 || code = 0x1680 || (0x2000 ≤ code && code ≤ 0x200A) ||
      code = 0x2028 || code = 0x2029 || code = 0x202F || code = 0x205F || code = 0x3000

def trimEnd (text : List Char) : List Char :=
  (text.reverse.dropWhile isBlank).reverse

def allBlank (text : List Char) : Bool :=
  text.all isBlank

/-- The maximal runs of characters that are not white space, one after the other. -/
def fieldsOnto (done : List (List Char)) (field : List Char) : List Char → List (List Char)
  | [] => (if field.isEmpty then done else field.reverse :: done).reverse
  | c :: rest =>
    if isBlank c then fieldsOnto (if field.isEmpty then done else field.reverse :: done) [] rest
    else fieldsOnto done (c :: field) rest

/-- The words of a text: its maximal runs of characters that are not white space. -/
def fields (text : List Char) : List (List Char) :=
  fieldsOnto [] [] text

end AccessibleMarkup.Text
