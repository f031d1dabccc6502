import Mathlib.Data.List.TakeWhile
import RuleMachine.Digraph

/-!
# Reading DOT text

A reader for the part of the DOT language in which directed graphs are written: identifiers without
quotes, in quotes, and as markup; nodes and edges with attributes; fields of nodes at the ends of
edges. Text is read character by character into tokens, tokens one by one into statements, and
statements one after the other into a graph. In a graph there is one node for each identifier, also
where it is mentioned in several statements.

What is written can be read back if each text in it is one that is quoted as it should be: a
backslash before a quote, a line break or the end would be taken for an escape, markup must be
balanced, and a line break after a word is lost.

* `Dot.Reads.quote`: identifiers.
* `Dot.Statement.reads`: statements, as tokens.
* `Dot.Package.Faithful.readGraph_source`: graphs, whatever package writes them, as long as it
  quotes names as identifiers.
-/

namespace RuleMachine

namespace Dot

-- ---------------------------------------------------------------------------
-- Tokens
-- ---------------------------------------------------------------------------

/-- An identifier that was read. Markup is not the same identifier as text. -/
inductive Id where
  | text (s : String)
  | markup (s : String)
deriving DecidableEq, Repr

/-- What a text in the graph language consists of: identifiers, keywords, single signs and the arrow
of an edge. -/
inductive Token where
  | id (a : Id)
  | keyword (word : String)
  | sign (c : Char)
  | arrow
deriving DecidableEq, Repr

/-- What the characters belong to that are being read. -/
inductive Lexing where
  | between
  /-- A minus sign, which may begin an arrow or a numeral. -/
  | dash
  /-- A word or a numeral, so far. -/
  | bare (cs : List Char)
  | quoted (cs : List Char)
  /-- What comes after a backslash between quotes. -/
  | escape (cs : List Char)
  /-- Markup with so many angle brackets that are open. -/
  | markup (depth : Nat) (cs : List Char)

/-- Characters that separate words and are nothing by themselves. -/
def isBlank (c : Char) : Bool := c == ' ' || c == '\t' || c == '\n' || c == '\r'

/-- Characters that stand for themselves. -/
def isSign (c : Char) : Bool := "\x7b\x7d[]=:;,".toList.contains c

/-- Characters of which words and numerals without quotes consist. -/
def isBare (c : Char) : Bool := isWordStart c || c.isDigit || c == '.'

/-- What a character begins that does not belong to anything before it. -/
def beginning (c : Char) : Option (List Token × Lexing) :=
  if isBare c then some ([], .bare [c])
  else if isBlank c then some ([], .between)
  else if isSign c then some ([.sign c], .between)
  else if c = '-' then some ([], .dash)
  else if c = '"' then some ([], .quoted [])
  else if c = '<' then some ([], .markup 1 [c])
  else none

/-- What a run of such characters is: a keyword in any case of letters, a word, a numeral or
nothing. -/
def bareToken (cs : List Char) : Option Token :=
  let lower := String.ofList (cs.map Char.toLower)
  if keywords.contains lower then some (.keyword lower)
  else if isWord cs || isNumeral cs then some (.id (.text (String.ofList cs)))
  else none

/-- Reads a character: the tokens that are complete, and what comes next belongs to. -/
def advance (state : Lexing) (c : Char) : Option (List Token × Lexing) :=
  match state with
  | .between => beginning c
  | .dash =>
    if c = '>' then some ([.arrow], .between)
    else if isBare c then some ([], .bare ['-', c])
    else none
  | .bare cs =>
    if isBare c then some ([], .bare (cs ++ [c]))
    else do
      let token ← bareToken cs
      let (tokens, next) ← beginning c
      return (token :: tokens, next)
  | .quoted cs =>
    if c = '"' then some ([.id (.text (String.ofList cs))], .between)
    else if c = '\\' then some ([], .escape cs)
    else some ([], .quoted (cs ++ [c]))
  | .escape cs =>
    if c = '"' then some ([], .quoted (cs ++ [c]))
    else if c = '\n' then some ([], .quoted cs)
    else some ([], .quoted (cs ++ ['\\', c]))
  | .markup depth cs =>
    if c = '<' then some ([], .markup (depth + 1) (cs ++ [c]))
    else if c = '>' then
      if depth ≤ 1 then some ([.id (.markup (String.ofList (cs ++ [c])))], .between)
      else some ([], .markup (depth - 1) (cs ++ [c]))
    else some ([], .markup depth (cs ++ [c]))

/-- The tokens in some characters. -/
def lex (state : Lexing) : List Char → Option (List Token)
  | [] =>
    match state with
    | .between => some []
    | .bare cs => (bareToken cs).map fun token => [token]
    | _ => none
  | c :: rest => do
    let (tokens, next) ← advance state c
    return tokens ++ (← lex next rest)

-- ---------------------------------------------------------------------------
-- Statements
-- ---------------------------------------------------------------------------

/-- A statement that was read. -/
inductive Item where
  | node (name : Id) (attributes : List (Id × Id))
  | edge (tail head : Id) (attributes : List (Id × Id))
deriving DecidableEq, Repr

/-- An attribute is added at the end, be it one of a node or of an edge. -/
def Item.add (key v : Id) : Item → Item
  | node name attributes => node name (attributes ++ [(key, v)])
  | edge tail head attributes => edge tail head (attributes ++ [(key, v)])

/-- What the tokens belong to that are being read. -/
inductive Parsing where
  | free
  /-- A statement of which a node was named last, with so many fields and compass points. -/
  | named (item : Item) (fields : Nat)
  | field (item : Item) (fields : Nat)
  | arrow (tail : Id)
  | attributes (item : Item)
  | key (item : Item) (key : Id)
  | value (item : Item) (key : Id)

/-- Reads a token: the statements that are complete, and what comes next belongs to. -/
def follow (state : Parsing) (token : Token) : Option (List Item × Parsing) :=
  match state, token with
  | .free, .id a => some ([], .named (.node a []) 0)
  | .named item _, .id a => some ([item], .named (.node a []) 0)
  | .named item fields, .sign ':' => if fields < 2 then some ([], .field item fields) else none
  | .named (.node a []) _, .arrow => some ([], .arrow a)
  | .named item _, .sign '[' => some ([], .attributes item)
  | .field item fields, .id _ => some ([], .named item (fields + 1))
  | .arrow tail, .id head => some ([], .named (.edge tail head []) 0)
  | .attributes item, .id key => some ([], .key item key)
  | .attributes item, .sign ']' => some ([item], .free)
  | .key item key, .sign '=' => some ([], .value item key)
  | .value item key, .id v => some ([], .attributes (item.add key v))
  | _, _ => none

/-- The statement that ends with a graph. -/
def lastItem : Parsing → Option (List Item)
  | .free => some []
  | .named item _ => some [item]
  | _ => none

/-- The statements in some tokens up to a closing brace, which is the last token. -/
def parse (state : Parsing) : List Token → Option (List Item)
  | [] => none
  | token :: rest =>
    if token = .sign '\x7d' then if rest.isEmpty then lastItem state else none
    else do
      let (items, next) ← follow state token
      return items ++ (← parse next rest)

/-- The statements in the tokens of a directed graph. -/
def body : List Token → Option (List Item)
  | .keyword "digraph" :: .sign '\x7b' :: rest => parse .free rest
  | _ => none

-- ---------------------------------------------------------------------------
-- Graphs
-- ---------------------------------------------------------------------------

/-- A node with its name and the attributes that were given for it. -/
structure Node where
  name : Id
  attributes : List (Id × Id)
deriving DecidableEq, Repr

/-- An edge from one node to another. -/
structure Edge where
  tail : Id
  head : Id
  attributes : List (Id × Id)
deriving DecidableEq, Repr

/-- The nodes of a graph in the order in which they were first named, and its edges in order. -/
structure Graph where
  nodes : List Node
  edges : List Edge
deriving DecidableEq, Repr

namespace Graph

/-- The graph of a text without statements. -/
def empty : Graph := { nodes := [], edges := [] }

/-- Names a node, which is a new one if it was not named before. -/
def name (g : Graph) (a : Id) (attributes : List (Id × Id)) : Graph :=
  if g.nodes.any fun node => node.name = a then
    { g with
      nodes := g.nodes.map fun node =>
        if node.name = a then { node with attributes := node.attributes ++ attributes } else node }
  else { g with nodes := g.nodes ++ [{ name := a, attributes }] }

/-- A statement about a node names it. A statement about an edge names both ends first. -/
def add (g : Graph) : Item → Graph
  | .node a attributes => g.name a attributes
  | .edge tail head attributes =>
    let named := (g.name tail []).name head []
    { named with edges := named.edges ++ [{ tail, head, attributes }] }

end Graph

/-- **Reads a graph** back from DOT text. -/
def readGraph (s : String) : Option Graph := do
  let tokens ← lex .between s.toList
  let items ← body tokens
  return items.foldl Graph.add .empty

-- ---------------------------------------------------------------------------
-- Text that is quoted as it should be
-- ---------------------------------------------------------------------------

/-- Whether no odd run of backslashes stands before a quote, a line break or the end. -/
def evenRuns (odd : Bool) : List Char → Bool
  | [] => !odd
  | c :: rest =>
    if c = '\\' then evenRuns (!odd) rest
    else !(odd && (c == '"' || c == '\n')) && evenRuns false rest

/-- Whether the last of the angle brackets that are open is closed by the last character. -/
def balanced (depth : Nat) : List Char → Bool
  | [] => false
  | c :: rest =>
    if c = '<' then balanced (depth + 1) rest
    else if c = '>' then if depth ≤ 1 then rest.isEmpty else balanced (depth - 1) rest
    else balanced depth rest

/-- Whether text is written so that it is read as it was. -/
def legible (s : String) : Bool :=
  if isMarkup s then balanced 0 s.toList
  else if isIdentifier s then s.toList.getLast? != some '\n'
  else evenRuns false s.toList

/-- The identifier that legible text is written as. -/
def Id.ofText (s : String) : Id := if isMarkup s then .markup s else .text s

theorem Id.ofText_inj {s t : String} (h : ofText s = ofText t) : s = t := by
  unfold ofText at h
  split at h <;> split at h <;> cases h <;> rfl

-- ---------------------------------------------------------------------------
-- Characters into tokens
-- ---------------------------------------------------------------------------

/-- A character that leads from one state of reading to another. -/
theorem lex_of_advance {state next : Lexing} {c : Char} {tokens : List Token}
    (h : advance state c = some (tokens, next)) (rest : List Char) :
    lex state (c :: rest) = (lex next rest).map (tokens ++ ·) := by
  rw [lex, h, Option.bind_eq_bind, Option.bind_some]
  dsimp only
  cases lex next rest <;> rfl

/-- A character that completes no token. -/
theorem lex_of_advance_nil {state next : Lexing} {c : Char}
    (h : advance state c = some ([], next)) (rest : List Char) :
    lex state (c :: rest) = lex next rest := by
  rw [lex_of_advance h]
  cases lex next rest <;> rfl

/-- **Whether characters are read as some tokens,** whatever comes after them. -/
def Reads (cs : List Char) (tokens : List Token) : Prop :=
  ∀ rest, lex .between (cs ++ rest) = (lex .between rest).map (tokens ++ ·)

namespace Reads

variable {cs cs' : List Char} {ts ts' : List Token}

theorem nil : Reads [] [] := by
  intro rest
  simp

theorem append (h : Reads cs ts) (h' : Reads cs' ts') : Reads (cs ++ cs') (ts ++ ts') := by
  intro rest
  rw [List.append_assoc, h, h', Option.map_map]
  simp [Function.comp_def]

/-- A blank adds nothing. -/
theorem blank {c : Char} (hBare : isBare c = false) (hBlank : isBlank c = true)
    (h : Reads cs ts) : Reads (c :: cs) ts := by
  intro rest
  have hNext : advance .between c = some ([], .between) := by
    simp [advance, beginning, hBare, hBlank]
  rw [List.cons_append, lex_of_advance_nil hNext, h]

/-- A sign is a token of its own. -/
theorem sign {c : Char} (hBare : isBare c = false) (hBlank : isBlank c = false)
    (hSign : isSign c = true) (h : Reads cs ts) : Reads (c :: cs) (.sign c :: ts) := by
  intro rest
  have hNext : advance .between c = some ([.sign c], .between) := by
    simp [advance, beginning, hBare, hBlank, hSign]
  rw [List.cons_append, lex_of_advance hNext, h, Option.map_map]
  rfl

/-- The two characters of an arrow are one token. -/
theorem arrow (h : Reads cs ts) : Reads ('-' :: '>' :: cs) (.arrow :: ts) := by
  intro rest
  have hDash : advance .between '-' = some ([], .dash) := rfl
  have hArrow : advance .dash '>' = some ([.arrow], .between) := rfl
  rw [List.cons_append, List.cons_append, lex_of_advance_nil hDash, lex_of_advance hArrow, h,
    Option.map_map]
  rfl

end Reads

-- Words and numerals.

/-- Words and numerals are read up to the first character that is part of neither. -/
theorem lex_bare {cs acc : List Char} {d : Char} {token : Token}
    (hBare : ∀ c ∈ cs, isBare c = true) (hEnd : isBare d = false)
    (hToken : bareToken (acc ++ cs) = some token) (rest : List Char) :
    lex (.bare acc) (cs ++ d :: rest) = (lex .between (d :: rest)).map (token :: ·) := by
  induction cs generalizing acc with
  | nil =>
    rw [List.append_nil] at hToken
    -- the character that ends the word is read twice: as its end and as the start of what follows
    cases hBegin : beginning d with
    | none =>
      have hNext : advance (.bare acc) d = none := by simp [advance, hEnd, hToken, hBegin]
      rw [List.nil_append, lex, lex, hNext, show advance .between d = none from hBegin]
      rfl
    | some begun =>
      obtain ⟨tokens, next⟩ := begun
      have hNext : advance (.bare acc) d = some (token :: tokens, next) := by
        simp [advance, hEnd, hToken, hBegin]
      rw [List.nil_append, lex_of_advance hNext,
        lex_of_advance (show advance .between d = some (tokens, next) from hBegin), Option.map_map]
      rfl
  | cons c cs ih =>
    obtain ⟨hFirst, hRest⟩ := List.forall_mem_cons.mp hBare
    have hNext : advance (.bare acc) c = some ([], .bare (acc ++ [c])) := by
      simp [advance, hFirst]
    rw [List.cons_append, lex_of_advance_nil hNext]
    exact ih hRest (by rwa [List.append_assoc])

/-- A word consists of characters that need no quotes. -/
theorem isBare_of_isWord {cs : List Char} (h : isWord cs = true) : ∀ c ∈ cs, isBare c = true := by
  cases cs with
  | nil => simp
  | cons c rest =>
    simp only [isWord, Bool.and_eq_true, List.all_eq_true] at h
    refine List.forall_mem_cons.mpr ⟨?_, fun d hd => ?_⟩
    · simp [isBare, h.1]
    · simp [isBare, h.2 d hd]

/-- A numeral without a sign is made of digits and points. -/
theorem isBare_of_isUnsignedNumeral {cs : List Char} (h : isUnsignedNumeral cs = true) :
    ∀ c ∈ cs, isBare c = true := by
  have hDigit {c : Char} (hc : c.isDigit = true) : isBare c = true := by simp [isBare, hc]
  -- the digits before the point, and then the point with the digits after it
  have hWhole : ∀ c ∈ cs.takeWhile Char.isDigit, isBare c = true := fun c hc =>
    hDigit (List.all_eq_true.mp List.all_takeWhile c hc)
  have hFraction : ∀ c ∈ cs.dropWhile Char.isDigit, isBare c = true := by
    unfold isUnsignedNumeral at h
    cases hRest : cs.dropWhile Char.isDigit with
    | nil => simp
    | cons point fraction =>
      simp only [hRest] at h
      split at h
      · rename_i heq
        cases heq
      · rename_i heq
        cases heq
        rw [Bool.and_eq_true, List.all_eq_true] at h
        exact List.forall_mem_cons.mpr ⟨by decide, fun c hc => hDigit (h.1 c hc)⟩
      · cases h
  rw [← List.takeWhile_append_dropWhile (p := Char.isDigit) (l := cs)]
  exact List.forall_mem_append.mpr ⟨hWhole, hFraction⟩

/-- What is no minus sign and begins a word or a numeral is part of it. -/
theorem isBare_of_ne_minus {c : Char} {cs : List Char} (hMinus : c ≠ '-')
    (hShape : (isWord (c :: cs) || isNumeral (c :: cs)) = true) :
    ∀ d ∈ c :: cs, isBare d = true := by
  rcases Bool.or_eq_true_iff.mp hShape with hWord | hNumeral
  · exact isBare_of_isWord hWord
  · refine isBare_of_isUnsignedNumeral ?_
    unfold isNumeral at hNumeral
    split at hNumeral
    · rename_i heq
      exact absurd (List.cons.inj heq).1 hMinus
    · exact hNumeral

/-- A minus sign is read as the beginning of the numeral that follows. -/
theorem lex_minus {cs : List Char} {d : Char} {token : Token}
    (hNumeral : isUnsignedNumeral cs = true)
    (hEnd : isBare d = false) (hToken : bareToken ('-' :: cs) = some token) (rest : List Char) :
    lex .between ('-' :: cs ++ d :: rest) = (lex .between (d :: rest)).map (token :: ·) := by
  have hBare : ∀ d ∈ cs, isBare d = true := isBare_of_isUnsignedNumeral hNumeral
  cases cs with
  | nil => cases hNumeral
  | cons digit cs =>
    obtain ⟨hDigit, hRest⟩ := List.forall_mem_cons.mp hBare
    have hDash : advance .between '-' = some ([], .dash) := rfl
    -- a minus sign starts an arrow unless a digit or a point follows it
    have hNotArrow : digit ≠ '>' := by
      rintro rfl
      cases hDigit
    have hBegin : advance .dash digit = some ([], .bare ['-', digit]) := by
      simp [advance, hNotArrow, hDigit]
    have hWhole : bareToken (['-', digit] ++ cs) = some token := hToken
    rw [List.cons_append, lex_of_advance_nil hDash, List.cons_append, lex_of_advance_nil hBegin,
      lex_bare hRest hEnd hWhole]

/-- Text that does not end in a line break has none to drop. -/
theorem dropFinalNewline_eq_self {cs : List Char} (h : cs.getLast? ≠ some '\n') :
    dropFinalNewline cs = cs := by
  unfold dropFinalNewline
  split
  · rename_i tail hTail
    refine absurd ?_ h
    rw [List.getLast?_eq_head?_reverse, hTail]
    rfl
  · rfl

/-- What text without quotes is read as. -/
theorem lex_identifier {s : String} (hId : isIdentifier s = true)
    (hLast : s.toList.getLast? ≠ some '\n') {d : Char} (hEnd : isBare d = false)
    (rest : List Char) :
    lex .between (s.toList ++ d :: rest) =
      (lex .between (d :: rest)).map (.id (.text s) :: ·) := by
  rw [isIdentifier, dropFinalNewline_eq_self hLast, Bool.and_eq_true, Bool.not_eq_true'] at hId
  obtain ⟨hShape, hKeyword⟩ := hId
  have hToken : bareToken s.toList = some (.id (.text s)) := by
    simp only [bareToken, hKeyword, hShape, Bool.false_eq_true, if_false, if_true,
      String.ofList_toList]
  -- the first character says whether there is a minus sign
  cases hChars : s.toList with
  | nil => rw [hChars] at hShape; cases hShape
  | cons c cs =>
    rw [hChars] at hShape hToken
    by_cases hMinus : c = '-'
    · subst hMinus
      exact lex_minus hShape hEnd hToken rest
    · obtain ⟨hFirst, hRest⟩ := List.forall_mem_cons.mp (isBare_of_ne_minus hMinus hShape)
      have hBegin : advance .between c = some ([], .bare [c]) := by
        simp [advance, beginning, hFirst]
      have hWhole : bareToken ([c] ++ cs) = some (.id (.text s)) := hToken
      rw [List.cons_append, lex_of_advance_nil hBegin, lex_bare hRest hEnd hWhole]

-- Text in quotes.

/-- **Text in quotes is read as it was.** After an even number of backslashes the next one begins an
escape, and after an odd number the last of them is the beginning of one. -/
theorem lex_escapeQuotes (cs : List Char) (n : Nat) (acc rest : List Char) :
    (n % 2 = 0 → evenRuns false cs = true →
      lex (.quoted acc) (escapeQuotes n cs ++ '"' :: rest) =
        (lex .between rest).map (.id (.text (String.ofList (acc ++ cs))) :: ·)) ∧
    (n % 2 = 1 → evenRuns true cs = true →
      lex (.escape acc) (escapeQuotes n cs ++ '"' :: rest) =
        (lex .between rest).map (.id (.text (String.ofList (acc ++ '\\' :: cs))) :: ·)) := by
  induction cs generalizing n acc with
  -- the text ends after an even run of backslashes, so the closing quote closes it
  | nil =>
    refine ⟨fun _ _ => ?_, fun _ h => by cases h⟩
    have hNext : advance (.quoted acc) '"' =
        some ([.id (.text (String.ofList acc))], .between) := rfl
    rw [escapeQuotes, List.nil_append, lex_of_advance hNext, List.append_nil]
    rfl
  | cons c cs ih =>
    -- a backslash changes the parity of the run, which is the lexer's state as well
    by_cases hSlash : c = '\\'
    · subst hSlash
      have hEscape : advance (.quoted acc) '\\' = some ([], .escape acc) := rfl
      have hPair : advance (.escape acc) '\\' = some ([], .quoted (acc ++ ['\\', '\\'])) := rfl
      refine ⟨fun hn h => ?_, fun hn h => ?_⟩
      · rw [escapeQuotes, List.cons_append, lex_of_advance_nil hEscape]
        exact (ih (n + 1) acc).2 (by omega) h
      · rw [escapeQuotes, List.cons_append, lex_of_advance_nil hPair,
          (ih (n + 1) _).1 (by omega) h, List.append_assoc]
        rfl
    -- a quote is written with a backslash of its own, which the lexer takes away again
    by_cases hQuote : c = '"'
    · subst hQuote
      have hEscape : advance (.quoted acc) '\\' = some ([], .escape acc) := rfl
      have hEscaped : advance (.escape acc) '"' = some ([], .quoted (acc ++ ['"'])) := rfl
      refine ⟨fun hn h => ?_, fun hn h => by cases h⟩
      rw [escapeQuotes, if_pos hn, List.cons_append, List.cons_append, lex_of_advance_nil hEscape,
        lex_of_advance_nil hEscaped, (ih 0 _).1 rfl h, List.append_assoc]
      rfl
    · have hPlain : escapeQuotes n (c :: cs) = c :: escapeQuotes 0 cs := by
        rw [escapeQuotes]
        · exact hSlash
        · exact hQuote
      have hRuns (odd : Bool) (h : evenRuns odd (c :: cs) = true) :
          (odd && c == '\n') = false ∧ evenRuns false cs = true := by
        rw [evenRuns, if_neg hSlash, Bool.and_eq_true, Bool.not_eq_true', beq_false_of_ne hQuote,
          Bool.false_or] at h
        exact h
      refine ⟨fun hn h => ?_, fun hn h => ?_⟩
      · have hNext : advance (.quoted acc) c = some ([], .quoted (acc ++ [c])) := by
          simp [advance, hQuote, hSlash]
        rw [hPlain, List.cons_append, lex_of_advance_nil hNext, (ih 0 _).1 rfl (hRuns false h).2,
          List.append_assoc]
        rfl
      · -- after an odd run only a line break would be swallowed, and the text has none there
        have hLine : c ≠ '\n' := by simpa using (hRuns true h).1
        have hNext : advance (.escape acc) c = some ([], .quoted (acc ++ ['\\', c])) := by
          simp [advance, hQuote, hLine]
        rw [hPlain, List.cons_append, lex_of_advance_nil hNext, (ih 0 _).1 rfl (hRuns true h).2,
          List.append_assoc]
        rfl

-- Markup.

/-- Markup is read up to the bracket that closes it, and brackets in between are paired. -/
theorem lex_markup (cs : List Char) {depth : Nat} (acc rest : List Char)
    (h : balanced depth cs = true) :
    lex (.markup depth acc) (cs ++ rest) =
      (lex .between rest).map (.id (.markup (String.ofList (acc ++ cs))) :: ·) := by
  induction cs generalizing depth acc with
  | nil => cases h
  | cons c cs ih =>
    -- every character but the last closing bracket is kept, and only the depth moves
    have hGo {depth next : Nat} (hNext : advance (.markup depth acc) c =
        some ([], .markup next (acc ++ [c]))) (h : balanced next cs = true) :
        lex (.markup depth acc) (c :: cs ++ rest) =
          (lex .between rest).map (.id (.markup (String.ofList (acc ++ c :: cs))) :: ·) := by
      rw [List.cons_append, lex_of_advance_nil hNext, ih _ h, List.append_assoc]
      rfl
    rw [balanced] at h
    by_cases hOpen : c = '<'
    · rw [if_pos hOpen] at h
      exact hGo (by simp [advance, hOpen]) h
    rw [if_neg hOpen] at h
    by_cases hClose : c = '>'
    · rw [if_pos hClose] at h
      split at h
      · rename_i hLast
        obtain rfl := List.isEmpty_iff.mp h
        have hNext : advance (.markup depth acc) c =
            some ([.id (.markup (String.ofList (acc ++ [c])))], .between) := by
          simp [advance, hClose, hLast]
        rw [List.cons_append, lex_of_advance hNext]
        rfl
      · rename_i hDeep
        exact hGo (by simp [advance, hClose, hDeep]) h
    · rw [if_neg hClose] at h
      exact hGo (by simp [advance, hOpen, hClose]) h

-- Identifiers.

/-- **Legible text is read as one identifier,** if what comes next cannot be part of it. -/
theorem Reads.quote {s : String} (hs : legible s = true) {d : Char} {cs : List Char}
    {ts : List Token} (hEnd : isBare d = false) (h : Reads (d :: cs) ts) :
    Reads ((Dot.quote s).toList ++ d :: cs) (.id (.ofText s) :: ts) := by
  intro rest
  have hId : lex .between ((Dot.quote s).toList ++ d :: (cs ++ rest)) =
      (lex .between (d :: (cs ++ rest))).map (.id (.ofText s) :: ·) := by
    unfold legible at hs
    unfold Dot.quote Id.ofText
    -- the three forms in which a name is written: markup, as it is, and in quotes
    cases hMarkup : isMarkup s with
    | true =>
      rw [hMarkup, if_pos rfl] at hs
      rw [Bool.true_or, if_pos rfl, if_pos rfl]
      unfold isMarkup at hMarkup
      split at hMarkup
      · rename_i tail hChars
        rw [hChars] at hs
        have hBegin : advance .between '<' = some ([], .markup 1 ['<']) := rfl
        rw [hChars, List.cons_append, lex_of_advance_nil hBegin, lex_markup tail _ _ hs]
        rw [show ['<'] ++ tail = s.toList from hChars.symm, String.ofList_toList]
      · cases hMarkup
    | false =>
      rw [hMarkup, if_neg Bool.false_ne_true] at hs
      rw [Bool.false_or, if_neg Bool.false_ne_true]
      cases hIdentifier : isIdentifier s with
      | true =>
        rw [hIdentifier, if_pos rfl] at hs
        rw [if_pos rfl]
        exact lex_identifier hIdentifier (by simpa using hs) hEnd _
      | false =>
        rw [hIdentifier, if_neg Bool.false_ne_true] at hs
        have hBegin : advance .between '"' = some ([], .quoted []) := rfl
        rw [if_neg Bool.false_ne_true, String.toList_ofList, List.append_assoc, List.cons_append,
          lex_of_advance_nil hBegin]
        have hText := (lex_escapeQuotes s.toList 0 [] (d :: (cs ++ rest))).1 rfl hs
        rw [List.nil_append, String.ofList_toList] at hText
        exact hText
  rw [List.append_assoc, List.cons_append, hId, ← List.cons_append, h, Option.map_map]
  rfl

-- ---------------------------------------------------------------------------
-- Statements into tokens
-- ---------------------------------------------------------------------------

/-- Attributes as they are read. -/
def Attributes.read (attributes : Attributes) : List (Id × Id) :=
  attributes.written.map fun (key, v) => (.ofText key, .ofText v)

/-- Whether all texts in attributes can be read as they are quoted. -/
def Attributes.legible (attributes : Attributes) : Bool :=
  attributes.written.all fun (key, v) => Dot.legible key && Dot.legible v

/-- The tokens of attributes: for each a key, a sign and a value. -/
def attributeTokens (attributes : List (Id × Id)) : List Token :=
  attributes.flatMap fun (key, v) => [.id key, .sign '=', .id v]

/-- The tokens of attributes in their brackets, which are left out if there is nothing in them. -/
def bracketed (attributes : List (Id × Id)) : List Token :=
  if attributes.isEmpty then [] else .sign '[' :: attributeTokens attributes ++ [.sign ']']

/-- A statement as it is read. -/
def Statement.item : Statement → Item
  | node name attributes => .node (.ofText name) attributes.read
  | edge tail head attributes => .edge (.ofText tail) (.ofText head) attributes.read

/-- The tokens of a statement. -/
def Item.tokens : Item → List Token
  | node name attributes => .id name :: bracketed attributes
  | edge tail head attributes => .id tail :: .arrow :: .id head :: bracketed attributes

/-- Whether a statement can be read as it was meant: its texts are legible, and no end of an edge
has a colon in it, which would part a node from a field of it. -/
def Statement.legible : Statement → Bool
  | node name attributes => Dot.legible name && attributes.legible
  | edge tail head attributes =>
    Dot.legible tail && Dot.legible head && attributes.legible &&
      !tail.toList.contains ':' && !head.toList.contains ':'

/-- Attributes are read one by one, up to the bracket that closes them. -/
theorem reads_attributes {written : List (String × String)}
    (h : written.all (fun (key, v) => Dot.legible key && Dot.legible v) = true) {cs : List Char}
    {ts : List Token} (hRest : Reads cs ts) :
    Reads ((String.intercalate " " (written.map fun (key, v) =>
        Dot.quote key ++ "=" ++ Dot.quote v)).toList ++ ']' :: cs)
      (attributeTokens (written.map fun (key, v) => (.ofText key, .ofText v)) ++
        .sign ']' :: ts) := by
  have hClose : Reads (']' :: cs) (.sign ']' :: ts) := .sign rfl rfl rfl hRest
  -- one attribute, and what comes after it
  have hOne {key v : String} (hKey : Dot.legible key = true) (hValue : Dot.legible v = true)
      {d : Char} {cs : List Char} {ts : List Token} (hEnd : isBare d = false)
      (h : Reads (d :: cs) ts) :
      Reads ((Dot.quote key ++ "=" ++ Dot.quote v).toList ++ d :: cs)
        (.id (.ofText key) :: .sign '=' :: .id (.ofText v) :: ts) := by
    rw [String.toList_append, String.toList_append, List.append_assoc, List.append_assoc]
    exact Reads.quote hKey rfl (.sign rfl rfl rfl (Reads.quote hValue hEnd h))
  induction written with
  | nil => exact hClose
  | cons first rest ih =>
    obtain ⟨key, v⟩ := first
    rw [List.all_cons, Bool.and_eq_true, Bool.and_eq_true] at h
    obtain ⟨⟨hKey, hValue⟩, hOthers⟩ := h
    cases rest with
    | nil => exact hOne hKey hValue rfl hClose
    | cons second rest =>
      rw [List.map_cons, List.map_cons, String.intercalate_cons_cons, String.toList_append,
        String.toList_append, List.append_assoc, List.append_assoc]
      exact hOne hKey hValue rfl (.blank rfl rfl (ih hOthers))

/-- Attributes at the end of a line. What comes before them ends where they begin. -/
theorem Attributes.reads {attributes : Attributes} (h : attributes.legible = true) :
    ∃ d cs, (attributes.text ++ "\n").toList = d :: cs ∧ isBare d = false ∧
      Reads (d :: cs) (bracketed attributes.read) := by
  have hLine : Reads ['\n'] [] := .blank rfl rfl .nil
  unfold Attributes.legible at h
  unfold Attributes.text Attributes.read
  cases hWritten : attributes.written with
  | nil => exact ⟨'\n', [], rfl, rfl, hLine⟩
  | cons first rest =>
    rw [hWritten] at h
    have hReads := reads_attributes h hLine
    refine ⟨' ', _, ?_, rfl, .blank rfl rfl (.sign (c := '[') rfl rfl rfl hReads)⟩
    simp

/-- Without a colon the end of an edge is quoted as a node is. -/
theorem quoteEnd_of_plain {s : String} (h : s.toList.contains ':' = false) :
    quoteEnd s = quote s := by
  have hPlain : ∀ c ∈ s.toList, (c != ':') = true := by
    intro c hc
    refine bne_iff_ne.mpr ?_
    rintro rfl
    rw [List.contains_iff_mem.mpr hc] at h
    cases h
  have hSplit : splitColon s.toList = (s.toList, []) := by
    rw [splitColon, List.takeWhile_eq_self_iff.mpr hPlain, List.dropWhile_eq_nil_iff.mpr hPlain]
    rfl
  unfold quoteEnd
  rw [hSplit]
  dsimp only
  rw [String.ofList_toList]
  exact String.append_empty

/-- **A statement is read as it was meant.** -/
theorem Statement.reads {statement : Statement} (h : statement.legible = true) :
    Reads statement.text.toList statement.item.tokens := by
  cases statement with
  | node name attributes =>
    rw [Statement.legible, Bool.and_eq_true] at h
    obtain ⟨d, cs, hText, hEnd, hReads⟩ := Attributes.reads h.2
    rw [Statement.text, String.append_assoc, String.append_assoc, String.toList_append,
      String.toList_append, hText]
    exact .blank rfl rfl (Reads.quote h.1 hEnd hReads)
  | edge tail head attributes =>
    simp only [Statement.legible, Bool.and_eq_true, Bool.not_eq_true'] at h
    obtain ⟨⟨⟨⟨hTail, hHead⟩, hAttributes⟩, hTailPlain⟩, hHeadPlain⟩ := h
    obtain ⟨d, cs, hText, hEnd, hReads⟩ := Attributes.reads hAttributes
    -- the head is read first, since what stands before it is read up to its start
    have hHeadReads := Reads.quote hHead hEnd hReads
    rw [Statement.text, quoteEnd_of_plain hTailPlain, quoteEnd_of_plain hHeadPlain]
    simp only [String.append_assoc, String.toList_append]
    rw [← String.toList_append, hText]
    have hArrow := Reads.arrow (.blank (c := ' ') rfl rfl hHeadReads)
    exact .blank rfl rfl (Reads.quote hTail rfl (.blank rfl rfl hArrow))

-- ---------------------------------------------------------------------------
-- Packages that write graphs
-- ---------------------------------------------------------------------------

/-- What a package for drawing writes: what comes before the statements of a graph, nodes, edges,
and what comes after them. -/
structure Package where
  opening : Digraph.Style → String
  node : String → Attributes → String
  edge : String → String → Attributes → String
  closing : String

namespace Package

variable (package : Package)

/-- The text of a statement as a package writes it. -/
def statement : Statement → String
  | .node name attributes => package.node name attributes
  | .edge tail head attributes => package.edge tail head attributes

/-- The text of a graph, statement by statement. -/
def source (g : Digraph) : String :=
  package.opening g.style ++ String.join (g.statements.map package.statement) ++ package.closing

/-- Whether a package writes what it is told to write. It may quote names as it likes, and need not
take an end of an edge for the name of a node if there is a colon in it. -/
structure Faithful : Prop where
  opening : Reads (package.opening .default).toList [.keyword "digraph", .sign '\x7b']
  /-- The name of a node is quoted as one identifier. -/
  node : ∀ name attributes, (Statement.node name attributes).legible = true →
    Reads (package.node name attributes).toList (.id (.ofText name) :: bracketed attributes.read)
  /-- The ends of an edge are parted at colons, and then quoted like names of nodes. -/
  edge : ∀ tail head attributes, (Statement.edge tail head attributes).legible = true →
    Reads (package.edge tail head attributes).toList
      (.id (.ofText tail) :: .arrow :: .id (.ofText head) :: bracketed attributes.read)
  closing : Reads package.closing.toList [.sign '\x7d']

variable {package}

/-- A statement that is written faithfully is read as its tokens. -/
theorem Faithful.statement (h : package.Faithful) {statement : Statement}
    (hLegible : statement.legible = true) :
    Reads (package.statement statement).toList statement.item.tokens := by
  cases statement with
  | node name attributes => exact h.node name attributes hLegible
  | edge tail head attributes => exact h.edge tail head attributes hLegible

/-- So are several in a row. -/
theorem Faithful.statements (h : package.Faithful) {statements : List Statement}
    (hLegible : ∀ statement ∈ statements, statement.legible = true) :
    Reads (String.join (statements.map package.statement)).toList
      ((statements.map Statement.item).flatMap Item.tokens) := by
  rw [String.toList_join, List.flatMap_map, List.flatMap_map]
  induction statements with
  | nil => exact .nil
  | cons statement rest ih =>
    obtain ⟨hFirst, hRest⟩ := List.forall_mem_cons.mp hLegible
    exact (h.statement hFirst).append (ih hRest)

end Package

/-- The package by which machines are drawn. -/
def graphviz : Package where
  opening := Digraph.Style.opening
  node name attributes := (Statement.node name attributes).text
  edge tail head attributes := (Statement.edge tail head attributes).text
  closing := "\x7d\n"

/-- What the package writes for a drawing is the text of the drawing. -/
theorem graphviz_source (g : Digraph) : graphviz.source g = g.source := by
  have hStatement : graphviz.statement = Statement.text := by
    funext statement
    cases statement <;> rfl
  rw [Package.source, hStatement]
  rfl

/-- **What machines are drawn by writes what it is told to write.** -/
theorem graphviz_faithful : graphviz.Faithful where
  opening := by
    have hOpening : (Digraph.Style.default).opening.toList =
        "digraph".toList ++ [' ', '\x7b', '\n'] := by
      decide +kernel
    -- the keyword is a bare word that a space ends
    have hKeyword : Reads "digraph ".toList [.keyword "digraph"] := by
      intro rest
      have hBegin : advance .between 'd' = some ([], .bare ['d']) := rfl
      have hBare : ∀ c ∈ "igraph".toList, isBare c = true := List.all_eq_true.mp rfl
      have hToken : bareToken (['d'] ++ "igraph".toList) = some (.keyword "digraph") := by
        simp [bareToken, keywords]
      have hBlank : advance .between ' ' = some ([], .between) := rfl
      show lex .between ('d' :: ("igraph".toList ++ ' ' :: rest)) = _
      rw [lex_of_advance_nil hBegin, lex_bare hBare rfl hToken, lex_of_advance_nil hBlank]
      rfl
    show Reads (Digraph.Style.default).opening.toList _
    rw [hOpening]
    exact hKeyword.append (.sign (c := '\x7b') rfl rfl rfl (.blank (c := '\n') rfl rfl .nil))
  node _ _ hLegible := Statement.reads hLegible
  edge _ _ _ hLegible := Statement.reads hLegible
  closing := .sign rfl rfl rfl (.blank rfl rfl .nil)

-- ---------------------------------------------------------------------------
-- Tokens into statements
-- ---------------------------------------------------------------------------

/-- A token that leads from one state of reading to another. -/
theorem parse_of_follow {state next : Parsing} {token : Token} {items : List Item}
    (hClose : token ≠ .sign '\x7d') (h : follow state token = some (items, next))
    (rest : List Token) :
    parse state (token :: rest) = (parse next rest).map (items ++ ·) := by
  rw [parse, if_neg hClose, h, Option.bind_eq_bind, Option.bind_some]
  dsimp only
  cases parse next rest <;> rfl

/-- A token that completes no statement. -/
theorem parse_of_follow_nil {state next : Parsing} {token : Token}
    (hClose : token ≠ .sign '\x7d') (h : follow state token = some ([], next))
    (rest : List Token) : parse state (token :: rest) = parse next rest := by
  rw [parse_of_follow hClose h]
  cases parse next rest <;> rfl

/-- Several attributes are added in order. -/
def Item.addAll (item : Item) (attributes : List (Id × Id)) : Item :=
  attributes.foldl (fun item (key, v) => item.add key v) item

/-- Adding attributes to a node one by one is adding them at once. -/
theorem Item.addAll_node (name : Id) (before attributes : List (Id × Id)) :
    (node name before).addAll attributes = node name (before ++ attributes) := by
  induction attributes generalizing before with
  | nil => rw [List.append_nil]; rfl
  | cons first rest ih =>
    rw [List.append_cons, ← ih]
    rfl

theorem Item.addAll_edge (tail head : Id) (before attributes : List (Id × Id)) :
    (edge tail head before).addAll attributes = edge tail head (before ++ attributes) := by
  induction attributes generalizing before with
  | nil => rw [List.append_nil]; rfl
  | cons first rest ih =>
    rw [List.append_cons, ← ih]
    rfl

/-- Attributes are added to the statement up to the bracket that closes them. -/
theorem parse_attributes (item : Item) (attributes : List (Id × Id)) (rest : List Token) :
    parse (.attributes item) (attributeTokens attributes ++ .sign ']' :: rest) =
      (parse .free rest).map (item.addAll attributes :: ·) := by
  induction attributes generalizing item with
  | nil =>
    have hEnd : follow (.attributes item) (.sign ']') = some ([item], .free) := rfl
    exact parse_of_follow (by simp) hEnd rest
  | cons first others ih =>
    obtain ⟨key, v⟩ := first
    -- a key, the sign and the value take the parser back to where it was
    have hKey : follow (.attributes item) (.id key) = some ([], .key item key) := rfl
    have hSign : follow (.key item key) (.sign '=') = some ([], .value item key) := rfl
    have hValue : follow (.value item key) (.id v) = some ([], .attributes (item.add key v)) := rfl
    rw [attributeTokens, List.flatMap_cons, List.append_assoc]
    simp only [List.cons_append, List.nil_append]
    rw [parse_of_follow_nil (by simp) hKey, parse_of_follow_nil (by simp) hSign,
      parse_of_follow_nil (by simp) hValue]
    exact ih (item.add key v)

/-- What may come after a statement: another one, or the end of the graph. -/
def Follows (tokens : List Token) : Prop :=
  tokens = [.sign '\x7d'] ∨ ∃ a rest, tokens = .id a :: rest

/-- A statement ends with its attributes, and without any it ends where the next one begins. -/
theorem parse_bracketed {item : Item} (attributes : List (Id × Id)) {rest : List Token}
    (hRest : Follows rest) :
    parse (.named item 0) (bracketed attributes ++ rest) =
      (parse .free rest).map (item.addAll attributes :: ·) := by
  cases attributes with
  -- without attributes the next item, or the end, shows that this one is finished
  | nil =>
    rcases hRest with rfl | ⟨a, rest, rfl⟩
    · rfl
    · have hNext : follow (.named item 0) (.id a) = some ([item], .named (.node a []) 0) := rfl
      have hFree : follow .free (.id a) = some ([], .named (.node a []) 0) := rfl
      change parse (.named item 0) (.id a :: rest) = (parse .free (.id a :: rest)).map (item :: ·)
      rw [parse_of_follow (by simp) hNext, parse_of_follow_nil (by simp) hFree]
      rfl
  | cons first others =>
    have hOpen : follow (.named item 0) (.sign '[') = some ([], .attributes item) := by
      cases item <;> rfl
    have hText : bracketed (first :: others) ++ rest =
        .sign '[' :: (attributeTokens (first :: others) ++ .sign ']' :: rest) := by
      simp [bracketed]
    rw [hText, parse_of_follow_nil (by simp) hOpen]
    exact parse_attributes item (first :: others) rest

/-- A statement is told from what comes after it. -/
theorem parse_item (item : Item) {rest : List Token} (hRest : Follows rest) :
    parse .free (item.tokens ++ rest) = (parse .free rest).map (item :: ·) := by
  cases item with
  | node name attributes =>
    have hName : follow .free (.id name) = some ([], .named (.node name []) 0) := rfl
    rw [Item.tokens, List.cons_append, parse_of_follow_nil (by simp) hName,
      parse_bracketed attributes hRest, Item.addAll_node, List.nil_append]
  | edge tail head attributes =>
    have hTail : follow .free (.id tail) = some ([], .named (.node tail []) 0) := rfl
    have hArrow : follow (.named (.node tail []) 0) .arrow = some ([], .arrow tail) := rfl
    have hHead : follow (.arrow tail) (.id head) = some ([], .named (.edge tail head []) 0) := rfl
    rw [Item.tokens]
    simp only [List.cons_append]
    rw [parse_of_follow_nil (by simp) hTail, parse_of_follow_nil (by simp) hArrow,
      parse_of_follow_nil (by simp) hHead, parse_bracketed attributes hRest, Item.addAll_edge,
      List.nil_append]

/-- A statement begins with an identifier, so it may follow another one without a sign in between.
-/
theorem Item.follows (item : Item) (rest : List Token) : Follows (item.tokens ++ rest) := by
  cases item with
  | node name attributes => exact .inr ⟨name, _, rfl⟩
  | edge tail head attributes => exact .inr ⟨tail, _, rfl⟩

/-- The statements of a graph are told apart. -/
theorem parse_items (items : List Item) :
    parse .free (items.flatMap Item.tokens ++ [.sign '\x7d']) = some items := by
  -- after an item there is another one or the closing brace
  have hFollows (items : List Item) : Follows (items.flatMap Item.tokens ++ [.sign '\x7d']) := by
    cases items with
    | nil => exact .inl rfl
    | cons item rest =>
      rw [List.flatMap_cons, List.append_assoc]
      exact item.follows _
  induction items with
  | nil => rfl
  | cons item rest ih =>
    rw [List.flatMap_cons, List.append_assoc, parse_item item (hFollows rest), ih]
    rfl

-- ---------------------------------------------------------------------------
-- Statements into graphs
-- ---------------------------------------------------------------------------

/-- The statement that names a node. -/
def Node.item (node : Node) : Item := .node node.name node.attributes

/-- The statement that draws an edge. -/
def Edge.item (edge : Edge) : Item := .edge edge.tail edge.head edge.attributes

namespace Graph

/-- The statements of a graph: its nodes, and then its edges. -/
def items (g : Graph) : List Item := g.nodes.map Node.item ++ g.edges.map Edge.item

/-- A graph in which nodes are different from each other, and the ends of edges are among them. -/
structure Proper (g : Graph) : Prop where
  distinct : (g.nodes.map Node.name).Nodup
  ends : ∀ edge ∈ g.edges,
    edge.tail ∈ g.nodes.map Node.name ∧ edge.head ∈ g.nodes.map Node.name

/-- A node that is named for the first time comes last. -/
theorem name_new {g : Graph} {a : Id} (h : a ∉ g.nodes.map Node.name)
    (attributes : List (Id × Id)) :
    g.name a attributes = { g with nodes := g.nodes ++ [{ name := a, attributes }] } := by
  rw [name, if_neg]
  simpa using h

/-- Naming a node again adds nothing to a graph. -/
theorem name_known {g : Graph} {a : Id} (h : a ∈ g.nodes.map Node.name) : g.name a [] = g := by
  have hSame (node : Node) : (if node.name = a then
      { node with attributes := node.attributes ++ [] } else node) = node := by
    rw [List.append_nil]
    exact ite_self node
  rw [name, if_pos (by simpa using h)]
  simp only [hSame, List.map_id']

/-- Statements about different nodes give these nodes in order. -/
theorem foldl_nodes (g : Graph) {nodes : List Node}
    (h : ((g.nodes ++ nodes).map Node.name).Nodup) :
    (nodes.map Node.item).foldl add g = { g with nodes := g.nodes ++ nodes } := by
  induction nodes generalizing g with
  | nil => rw [List.append_nil]; rfl
  | cons node rest ih =>
    have hNew : node.name ∉ g.nodes.map Node.name := by
      rw [List.map_append, List.map_cons] at h
      exact fun hOld => (List.nodup_append.mp h).2.2 _ hOld _ List.mem_cons_self rfl
    rw [List.append_cons] at h ⊢
    rw [List.map_cons, List.foldl_cons, Node.item, add, name_new hNew, ih _ h]

/-- Statements about edges between nodes that were named before name no new ones. -/
theorem foldl_edges (g : Graph) {edges : List Edge}
    (h : ∀ edge ∈ edges, edge.tail ∈ g.nodes.map Node.name ∧ edge.head ∈ g.nodes.map Node.name) :
    (edges.map Edge.item).foldl add g = { g with edges := g.edges ++ edges } := by
  induction edges generalizing g with
  | nil => rw [List.append_nil, List.map_nil]; rfl
  | cons edge rest ih =>
    obtain ⟨⟨hTail, hHead⟩, hRest⟩ := List.forall_mem_cons.mp h
    rw [List.append_cons, List.map_cons, List.foldl_cons, Edge.item, add, name_known hTail,
      name_known hHead]
    exact ih _ hRest

/-- **The statements of a graph make up the graph.** -/
theorem Proper.foldl_items {g : Graph} (h : g.Proper) : g.items.foldl add .empty = g := by
  rw [items, List.foldl_append, foldl_nodes .empty (by simpa [empty] using h.distinct),
    foldl_edges _ (by simpa [empty] using h.ends)]
  rfl

end Graph

end Dot

-- ---------------------------------------------------------------------------
-- Graphs
-- ---------------------------------------------------------------------------

open Dot

/-- **A graph is read back** from the text of its statements, whatever package wrote it. -/
theorem Dot.Package.Faithful.readGraph_source {package : Package} (hFaithful : package.Faithful)
    {statements : List Statement} {g : Graph}
    (h : ∀ statement ∈ statements, statement.legible = true)
    (hItems : statements.map Statement.item = g.items) (hProper : g.Proper) :
    readGraph (package.source { style := .default, statements }) = some g := by
  have hReads := hFaithful.opening.append ((hFaithful.statements h).append hFaithful.closing)
  have hLex : lex .between (package.source { style := .default, statements }).toList =
      some (.keyword "digraph" :: .sign '\x7b' ::
        ((statements.map Statement.item).flatMap Item.tokens ++ [.sign '\x7d'])) := by
    have hTokens := hReads []
    rw [List.append_nil, ← List.append_assoc] at hTokens
    rw [Package.source, String.toList_append, String.toList_append, hTokens]
    simp [lex]
  rw [readGraph, hLex, Option.bind_eq_bind, Option.bind_some, body, parse_items, hItems]
  exact congrArg some hProper.foldl_items

end RuleMachine
