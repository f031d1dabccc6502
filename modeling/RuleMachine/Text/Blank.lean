/-!
# Blanks, words and lines

The Unicode blanks, and the two ways a text is cut when it has to be spread over several
lines: `splitLines` cuts after each line break and `splitWords` after each run of blanks.
Neither loses a character, so a text is the concatenation of its lines
(`splitLines_flatten`) and of its words (`splitWords_flatten`).
-/

namespace RuleMachine

/-- Blanks: the characters of a Unicode space category or of a bidirectional class that separates
paragraphs, segments or words. -/
def isBlank (c : Char) : Bool :=
  let n := c.toNat
  (0x09 ≤ n && n ≤ 0x0D) || (0x1C ≤ n && n ≤ 0x20) || n == 0x85 || n == 0xA0 || n == 0x1680 ||
    (0x2000 ≤ n && n ≤ 0x200A) || n == 0x2028 || n == 0x2029 || n == 0x202F || n == 0x205F ||
    n == 0x3000

/-- Characters that end a line: the vertical ones of ASCII, its three upper separators, the next-
line control and the two Unicode separators. -/
def isLineBreak (c : Char) : Bool :=
  let n := c.toNat
  (0x0A ≤ n && n ≤ 0x0D) || (0x1C ≤ n && n ≤ 0x1E) || n == 0x85 || n == 0x2028 || n == 0x2029

/-- Puts a character in front of the first line, opening a line if there is none. -/
def consLine (c : Char) : List (List Char) → List (List Char)
  | [] => [[c]]
  | line :: lines => (c :: line) :: lines

/-- The lines of a text, each with the break that ends it. A carriage return and a line feed that
follows it are one break. -/
def splitLines : List Char → List (List Char)
  | [] => []
  | '\r' :: '\n' :: rest => ['\r', '\n'] :: splitLines rest
  | c :: rest => if isLineBreak c then [c] :: splitLines rest else consLine c (splitLines rest)

/-- Puts a character in front of the first word: into it, unless the character is a blank and the
word begins with another character, which is where words are parted. -/
def consWord (c : Char) : List (List Char) → List (List Char)
  | [] => [[c]]
  | [] :: words => [c] :: words
  | (d :: word) :: words =>
    if isBlank c && !isBlank d then [c] :: (d :: word) :: words else (c :: d :: word) :: words

/-- The words of a text, each with the blanks after it. Blanks at the start are a word of their
own. -/
def splitWords : List Char → List (List Char)
  | [] => []
  | c :: rest => consWord c (splitWords rest)

theorem consLine_flatten (c : Char) (lines : List (List Char)) :
    (consLine c lines).flatten = c :: lines.flatten := by
  cases lines <;> rfl

theorem splitLines_flatten (cs : List Char) : (splitLines cs).flatten = cs := by
  fun_induction splitLines cs with
  | case1 => rfl
  | case2 rest ih => simp [ih]
  | case3 c rest _ _ ih => simp [ih]
  | case4 c rest _ _ ih => rw [consLine_flatten, ih]

theorem consWord_flatten (c : Char) (words : List (List Char)) :
    (consWord c words).flatten = c :: words.flatten := by
  fun_cases consWord c words <;> simp

theorem splitWords_flatten (cs : List Char) : (splitWords cs).flatten = cs := by
  induction cs with
  | nil => rfl
  | cons c rest ih => rw [splitWords, consWord_flatten, ih]

end RuleMachine
