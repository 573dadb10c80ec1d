namespace LiveMarkup

/-- The white space of the Unicode standard. -/
def isBlank (c : Char) : Bool :=
  let n := c.toNat
  (9 ≤ n && n ≤ 13) || n == 0x20 || n == 0x85 || n == 0xa0 || n == 0x1680 ||
    (0x2000 ≤ n && n ≤ 0x200a) || n == 0x2028 || n == 0x2029 || n == 0x202f ||
    n == 0x205f || n == 0x3000

def trimStart (cs : List Char) : List Char :=
  cs.dropWhile isBlank

def trimEnd (cs : List Char) : List Char :=
  (cs.reverse.dropWhile isBlank).reverse

def trim (cs : List Char) : List Char :=
  trimEnd (trimStart cs)

def trimText (s : String) : String :=
  String.ofList (trim s.toList)

/-- The blanks in front of a text. -/
def leadingBlank (cs : List Char) : List Char :=
  cs.takeWhile isBlank

/-- The blanks at the end of a text, last one first. -/
def trailingBlank (cs : List Char) : List Char :=
  cs.reverse.takeWhile isBlank

/-- Indentation is a run of blanks at either end that spans a line break; it is not content. -/
def trimIndentation (cs : List Char) : List Char :=
  let front := if (leadingBlank cs).contains '\n' then trimStart cs else cs
  if (trailingBlank front).contains '\n' then trimEnd front else front

/-- The pieces of a text between the occurrences of a separator. -/
def splitAtChar (sep : Char) : List Char → List (List Char)
  | [] => [[]]
  | c :: cs =>
    if c = sep then [] :: splitAtChar sep cs
    else match splitAtChar sep cs with
      | [] => [[c]]
      | piece :: rest => (c :: piece) :: rest

end LiveMarkup
