import Mathlib.Data.List.Basic

/-! The lexical structure of a query, as far as quotes decide it: what a text is
between its quotes, and what a quoted string denotes. A single quote ends a string
unless it is doubled or stands behind a backslash; a backslash takes itself and the
next character for one, except in front of `%` and `_`, where both stay. -/
namespace NewNameAuction.SqlLexer

abbrev Text := List UInt8

inductive Token
  | word (text : Text)
  | integer (text : Text)
  /-- A quoted string, by what it denotes. -/
  | string (denoted : Text)
  | symbol (char : UInt8)
  deriving DecidableEq

/-- A token without the value of a literal. -/
inductive Kind
  | word (text : Text)
  | integer
  | string
  | symbol (char : UInt8)
  deriving DecidableEq

def Token.kind : Token → Kind
  | .word text => .word text
  | .integer _ => .integer
  | .string _ => .string
  | .symbol char => .symbol char

/-- What the quoted strings among some tokens denote. -/
def strings (tokens : List Token) : List Text :=
  tokens.filterMap fun
    | .string denoted => some denoted
    | _ => none

/-- Where the lexer stands, with what it has read of the token it is in. -/
inductive Mode
  | between
  | word (text : Text)
  | integer (text : Text)
  | minus
  | minusMinus
  | slash
  | lineComment
  | blockComment
  | blockStar
  /-- Inside quotes of this kind. -/
  | quoted (quote : UInt8) (text : Text)
  /-- Behind a backslash in a string. -/
  | escape (quote : UInt8) (text : Text)
  /-- Behind a quote that ends the string, or is the first of two. -/
  | closing (quote : UInt8) (text : Text)
  deriving DecidableEq

structure State where
  done : List Token
  mode : Mode
  deriving DecidableEq

def singleQuote : UInt8 := 39
def doubleQuote : UInt8 := 34
def backQuote : UInt8 := 96
def backslash : UInt8 := 92

def isSpace (char : UInt8) : Bool := char ≤ 32
def isDigit (char : UInt8) : Bool := 48 ≤ char && char ≤ 57

/-- Letters, `$`, `_`, and the bytes of characters behind ASCII. -/
def isLetter (char : UInt8) : Bool :=
  65 ≤ char && char ≤ 90 || 97 ≤ char && char ≤ 122 || char = 36 || char = 95 || 128 ≤ char

/-- What a character behind a backslash stands for. -/
def unescape (char : UInt8) : Text :=
  if char = 48 then [0]
  else if char = 98 then [8]
  else if char = 110 then [10]
  else if char = 114 then [13]
  else if char = 116 then [9]
  else if char = 90 then [26]
  else if char = 37 || char = 95 then [backslash, char]
  else [char]

/-- Backquotes stand around a name. -/
def quotedToken (quote : UInt8) (text : Text) : Token :=
  if quote = backQuote then .word text else .string text

/-- The first character of a token, or one that stands alone. -/
def fresh (done : List Token) (char : UInt8) : State :=
  if isSpace char then ⟨done, .between⟩
  else if char = singleQuote || char = doubleQuote || char = backQuote then ⟨done, .quoted char []⟩
  else if isDigit char then ⟨done, .integer [char]⟩
  else if isLetter char then ⟨done, .word [char]⟩
  else if char = 45 then ⟨done, .minus⟩
  else if char = 47 then ⟨done, .slash⟩
  else if char = 35 then ⟨done, .lineComment⟩
  else ⟨done ++ [.symbol char], .between⟩

/-- Behind a minus: of a number, or of a comment of the kind that two of them and a
space begin. -/
def afterMinus (done : List Token) (char : UInt8) : State :=
  if isDigit char then ⟨done, .integer [45, char]⟩
  else if char = 45 then ⟨done, .minusMinus⟩
  else fresh (done ++ [.symbol 45]) char

def step (s : State) (char : UInt8) : State :=
  match s.mode with
  | .between => fresh s.done char
  | .word text =>
    if isLetter char || isDigit char then ⟨s.done, .word (text ++ [char])⟩
    else fresh (s.done ++ [.word text]) char
  | .integer text =>
    if isDigit char then ⟨s.done, .integer (text ++ [char])⟩
    else fresh (s.done ++ [.integer text]) char
  | .minus => afterMinus s.done char
  | .minusMinus =>
    if isSpace char then ⟨s.done, .lineComment⟩ else afterMinus (s.done ++ [.symbol 45]) char
  | .slash =>
    if char = 42 then ⟨s.done, .blockComment⟩ else fresh (s.done ++ [.symbol 47]) char
  | .lineComment => if char = 10 then ⟨s.done, .between⟩ else s
  | .blockComment => if char = 42 then ⟨s.done, .blockStar⟩ else s
  | .blockStar =>
    if char = 47 then ⟨s.done, .between⟩ else if char = 42 then s else ⟨s.done, .blockComment⟩
  | .quoted quote text =>
    if char = quote then ⟨s.done, .closing quote text⟩
    else if char = backslash ∧ quote ≠ backQuote then ⟨s.done, .escape quote text⟩
    else ⟨s.done, .quoted quote (text ++ [char])⟩
  | .escape quote text => ⟨s.done, .quoted quote (text ++ unescape char)⟩
  | .closing quote text =>
    if char = quote then ⟨s.done, .quoted quote (text ++ [char])⟩
    else fresh (s.done ++ [quotedToken quote text]) char

def scan (s : State) (text : Text) : State := text.foldl step s

/-- The tokens at the end of the text, unless it ends in a quote or a comment. -/
def finish (s : State) : Option (List Token) :=
  match s.mode with
  | .between | .lineComment | .minusMinus => some s.done
  | .word text => some (s.done ++ [.word text])
  | .integer text => some (s.done ++ [.integer text])
  | .minus => some (s.done ++ [.symbol 45])
  | .slash => some (s.done ++ [.symbol 47])
  | .closing quote text => some (s.done ++ [quotedToken quote text])
  | .blockComment | .blockStar | .quoted _ _ | .escape _ _ => none

def tokens (text : Text) : Option (List Token) := finish (scan ⟨[], .between⟩ text)

/-- Comments, a doubled quote, and backslashes in front of a quote and of `%`. -/
example : tokens "a='x''y\\'\\%' /* ' */ -- z".toUTF8.data.toList =
    some [.word [97], .symbol 61, .string [120, 39, 121, 39, 92, 37]] := by decide

/-! ## Scanning in parts -/

section Scan
variable {s : State} {done : List Token} {text text' : Text} {found : List Token}

theorem scan_append (s : State) (text text' : Text) : scan s (text ++ text') = scan (scan s text) text' :=
  List.foldl_append

theorem scan_cons (s : State) (char : UInt8) (text : Text) : scan s (char :: text) = scan (step s char) text :=
  rfl

/-- Tokens once read stay. -/
theorem fresh_done (done : List Token) (char : UInt8) : done <+: (fresh done char).done := by
  unfold fresh
  split_ifs
  all_goals simp

theorem afterMinus_done (done : List Token) (char : UInt8) : done <+: (afterMinus done char).done := by
  unfold afterMinus
  split_ifs
  · exact List.prefix_rfl
  · exact List.prefix_rfl
  · exact (List.prefix_append done _).trans (fresh_done _ char)

theorem step_done (s : State) (char : UInt8) : s.done <+: (step s char).done := by
  have more (token : Token) : s.done <+: (fresh (s.done ++ [token]) char).done :=
    (List.prefix_append s.done _).trans (fresh_done _ char)
  unfold step
  cases s.mode
  case between => exact fresh_done s.done char
  case minus => exact afterMinus_done s.done char
  case escape => exact List.prefix_rfl
  case minusMinus =>
    dsimp only
    split_ifs
    · exact List.prefix_rfl
    · exact (List.prefix_append s.done _).trans (afterMinus_done _ char)
  all_goals
    dsimp only
    split_ifs
    all_goals first | exact List.prefix_rfl | exact more _

theorem scan_done (s : State) (text : Text) : s.done <+: (scan s text).done := by
  induction text generalizing s with
  | nil => exact List.prefix_rfl
  | cons char text ih => exact (step_done s char).trans (ih _)

theorem finish_done (lexed : finish s = some found) : s.done <+: found := by
  unfold finish at lexed
  cases mode : s.mode
  all_goals simp only [mode] at lexed
  all_goals cases lexed
  all_goals simp

theorem tokens_done (lexed : finish (scan s text) = some found) : s.done <+: found :=
  (scan_done s text).trans (finish_done lexed)

end Scan

/-! ## The body of a string -/

/-- A text that stands for itself between quotes: no quote, and no backslash but in front
of `%` or `_`. `code` is a character's number. -/
def Verbatim {α : Type*} (code : α → Nat) : List α → Prop
  | [] => True
  | c :: rest =>
    code c ≠ 39 ∧ (code c = 92 → ∃ d ∈ rest.head?, code d = 37 ∨ code d = 95) ∧ Verbatim code rest

def decideVerbatim {α : Type*} (code : α → Nat) : (text : List α) → Decidable (Verbatim code text)
  | [] => .isTrue trivial
  | c :: rest =>
    have := decideVerbatim code rest
    inferInstanceAs (Decidable (code c ≠ 39 ∧
      (code c = 92 → ∃ d ∈ rest.head?, code d = 37 ∨ code d = 95) ∧ Verbatim code rest))

instance {α : Type*} (code : α → Nat) : DecidablePred (Verbatim code) := decideVerbatim code

section Body
variable {done : List Token} {found : List Token}

theorem scan_plain {char : UInt8} (quote : char ≠ singleQuote) (slash : char ≠ backslash)
    (done : List Token) (text : Text) :
    step ⟨done, .quoted singleQuote text⟩ char = ⟨done, .quoted singleQuote (text ++ [char])⟩ := by
  simp [step, quote, slash]

theorem scan_escaped (char : UInt8) (done : List Token) (text : Text) :
    scan ⟨done, .quoted singleQuote text⟩ [backslash, char] =
      ⟨done, .quoted singleQuote (text ++ unescape char)⟩ := by
  simp [scan, step, singleQuote, backslash, backQuote]

/-- A string without another quote never ends. -/
theorem unterminated {back : Text} (plain : singleQuote ∉ back) (text : Text) :
    finish (scan ⟨done, .quoted singleQuote text⟩ back) = none := by
  match back with
  | [] => rfl
  | [char] =>
    have quote : char ≠ singleQuote := fun same => plain (same ▸ List.mem_cons_self)
    by_cases slash : char = backslash
    · rw [slash]
      rfl
    · rw [scan_cons, scan_plain quote slash]
      rfl
  | char :: next :: rest =>
    have quote : char ≠ singleQuote := fun same => plain (same ▸ List.mem_cons_self)
    have later : singleQuote ∉ next :: rest := fun member => plain (List.mem_cons_of_mem _ member)
    by_cases slash : char = backslash
    · have parts : char :: next :: rest = [backslash, next] ++ rest := by rw [slash]; rfl
      rw [parts, scan_append, scan_escaped]
      exact unterminated (fun member => later (List.mem_cons_of_mem _ member)) _
    · rw [scan_cons, scan_plain quote slash]
      exact unterminated later _

/-- A text that stands for itself is read as itself. -/
theorem scan_verbatim {body : Text} (verbatim : Verbatim UInt8.toNat body) (done : List Token) (text : Text) :
    scan ⟨done, .quoted singleQuote text⟩ body = ⟨done, .quoted singleQuote (text ++ body)⟩ := by
  match body with
  | [] => rw [List.append_nil]; rfl
  | char :: rest =>
    obtain ⟨quote, paired, later⟩ := verbatim
    have quote : char ≠ singleQuote := fun same => quote (same ▸ rfl)
    by_cases slash : char = backslash
    · obtain ⟨next, first, stays⟩ := paired (slash ▸ rfl)
      obtain ⟨rest, rfl⟩ : ∃ tail, rest = next :: tail := by
        cases rest with
        | nil => cases first
        | cons head tail => obtain rfl := Option.some.inj first; exact ⟨tail, rfl⟩
      have both : unescape next = [backslash, next] := by
        rcases stays with same | same
        · obtain rfl : next = 37 := UInt8.toNat_inj.mp same
          rfl
        · obtain rfl : next = 95 := UInt8.toNat_inj.mp same
          rfl
      have parts : char :: next :: rest = [backslash, next] ++ rest := by rw [slash]; rfl
      rw [parts, scan_append, scan_escaped, scan_verbatim later.2.2, both, List.append_assoc]
    · rw [scan_cons, scan_plain quote slash, scan_verbatim later, List.append_assoc, List.singleton_append]

/-- An escape stands for one byte, or for the two it is written with. -/
theorem unescape_cases (char : UInt8) : (unescape char).length = 1 ∨
    unescape char = [backslash, char] ∧ (char.toNat = 37 ∨ char.toNat = 95) := by
  by_cases stays : char = 37 ∨ char = 95
  · rcases stays with rfl | rfl
    · exact .inr ⟨rfl, .inl rfl⟩
    · exact .inr ⟨rfl, .inr rfl⟩
  · left
    unfold unescape
    simp only [Bool.or_eq_true, decide_eq_true_eq, if_neg stays]
    split_ifs
    all_goals rfl

/-- The string begun with `text` before a body denotes no more than both, and just both
only if the body stands for itself. -/
def ReadAs (done found : List Token) (text body : Text) : Prop :=
  ∃ denoted more, found = done ++ .string denoted :: more ∧
    denoted.length ≤ text.length + body.length ∧
    (denoted = text ++ body → Verbatim UInt8.toNat body)

theorem ReadAs.ended {text : Text} {next : UInt8} {rest : Text} (other : next ≠ singleQuote)
    (lexed : finish (scan (step ⟨done, .closing singleQuote text⟩ next) rest) = some found) (body : Text) :
    ReadAs done found text body := by
  have first : step ⟨done, .closing singleQuote text⟩ next = fresh (done ++ [.string text]) next :=
    if_neg other
  rw [first] at lexed
  obtain ⟨more, rfl⟩ := (fresh_done _ next).trans (tokens_done lexed)
  refine ⟨text, more, by rw [List.append_assoc, List.singleton_append], Nat.le_add_right _ _, fun whole => ?_⟩
  obtain rfl := List.self_eq_append_right.mp whole
  trivial

/-- Bytes that are lost are not made up for. -/
theorem ReadAs.shrink {text text' body rest : Text} (read : ReadAs done found text' rest)
    (less : text'.length + rest.length < text.length + body.length) : ReadAs done found text body := by
  obtain ⟨denoted, more, same, short, _⟩ := read
  refine ⟨denoted, more, same, by omega, fun whole => ?_⟩
  have length := congrArg List.length whole
  rw [List.length_append] at length
  omega

theorem ReadAs.extend {text piece rest : Text} (read : ReadAs done found (text ++ piece) rest)
    (verbatim : Verbatim UInt8.toNat rest → Verbatim UInt8.toNat (piece ++ rest)) :
    ReadAs done found text (piece ++ rest) := by
  obtain ⟨denoted, more, same, short, exactly⟩ := read
  refine ⟨denoted, more, same, ?_, fun whole => verbatim (exactly ?_)⟩
  · rw [List.length_append] at short ⊢
    omega
  · rw [whole, List.append_assoc]

theorem verbatim_escape {next : UInt8} (stays : next.toNat = 37 ∨ next.toNat = 95) {rest : Text}
    (later : Verbatim UInt8.toNat rest) : Verbatim UInt8.toNat ([backslash, next] ++ rest) := by
  refine ⟨by decide, fun _ => ⟨next, rfl, stays⟩, ?_, fun same => ?_, later⟩
  · rcases stays with same | same <;> omega
  · rcases stays with other | other <;> omega

theorem verbatim_plain {char : UInt8} (quote : char ≠ singleQuote) (slash : char ≠ backslash) {rest : Text}
    (later : Verbatim UInt8.toNat rest) : Verbatim UInt8.toNat ([char] ++ rest) :=
  ⟨fun same => quote (UInt8.toNat_inj.mp same), fun same => absurd (UInt8.toNat_inj.mp same) slash, later⟩

/-- A body with a quote behind it, and no quote after that. -/
theorem body_read {body back : Text} (plain : singleQuote ∉ back) {text : Text}
    (lexed : finish (scan ⟨done, .quoted singleQuote text⟩ (body ++ singleQuote :: back)) = some found) :
    ReadAs done found text body := by
  have closed : step ⟨done, .quoted singleQuote text⟩ singleQuote = ⟨done, .closing singleQuote text⟩ := rfl
  have doubled : step ⟨done, .closing singleQuote text⟩ singleQuote =
      ⟨done, .quoted singleQuote (text ++ [singleQuote])⟩ := rfl
  match body with
  | [] =>
    rw [List.nil_append, scan_cons, closed] at lexed
    cases back with
    | nil =>
      obtain rfl := Option.some.inj lexed
      exact ⟨text, [], rfl, Nat.le_refl _, fun _ => trivial⟩
    | cons next rest => exact .ended (fun same => plain (same ▸ List.mem_cons_self)) lexed []
  | char :: rest =>
    by_cases quote : char = singleQuote
    · rw [quote, List.cons_append, scan_cons, closed] at lexed
      cases rest with
      | nil =>
        -- The quote behind the body doubles the last of the body.
        rw [List.nil_append, scan_cons, doubled, unterminated plain] at lexed
        cases lexed
      | cons next rest =>
        rw [List.cons_append, scan_cons] at lexed
        by_cases other : next = singleQuote
        · rw [other, doubled] at lexed
          refine (body_read plain lexed).shrink ?_
          simp only [List.length_append, List.length_cons, List.length_nil]
          omega
        · exact .ended other lexed _
    · by_cases slash : char = backslash
      · subst slash
        cases rest with
        | nil =>
          -- The quote behind the body is escaped.
          have parts : [backslash] ++ singleQuote :: back = [backslash, singleQuote] ++ back := rfl
          rw [parts, scan_append, scan_escaped, unterminated plain] at lexed
          cases lexed
        | cons next rest =>
          have parts : backslash :: next :: rest ++ singleQuote :: back =
              [backslash, next] ++ (rest ++ singleQuote :: back) := rfl
          rw [parts, scan_append, scan_escaped] at lexed
          have read := body_read plain lexed
          rcases unescape_cases next with one | ⟨both, stays⟩
          · refine read.shrink ?_
            simp only [List.length_append, List.length_cons, one]
            omega
          · rw [both] at read
            exact read.extend (verbatim_escape stays)
      · rw [List.cons_append, scan_cons, scan_plain quote slash] at lexed
        exact (body_read plain lexed).extend (verbatim_plain quote slash)
termination_by body.length

/-- A body that stands for itself ends at the quote behind it. -/
theorem scan_literal {body : Text} (verbatim : Verbatim UInt8.toNat body) (done : List Token) (back : Text) :
    scan ⟨done, .quoted singleQuote []⟩ (body ++ singleQuote :: back) =
      scan ⟨done, .closing singleQuote body⟩ back := by
  rw [scan_append, scan_verbatim verbatim, List.nil_append, scan_cons]
  rfl

end Body

/-! ## Numbers -/

section Numbers

theorem fresh_digit {char : UInt8} (digit : isDigit char = true) (done : List Token) :
    fresh done char = ⟨done, .integer [char]⟩ := by
  have range : 48 ≤ char.toNat ∧ char.toNat ≤ 57 := by
    simpa [isDigit, UInt8.le_iff_toNat_le] using digit
  have space : isSpace char = false := by
    simp only [isSpace, UInt8.le_iff_toNat_le, decide_eq_false_iff_not]
    exact fun small => absurd (Nat.le_trans range.1 small) (by decide)
  have other (quote : UInt8) (outside : quote.toNat < 48 ∨ 57 < quote.toNat) : char ≠ quote := by
    intro same
    rw [same] at range
    omega
  have single := other singleQuote (by decide)
  have double := other doubleQuote (by decide)
  have back := other backQuote (by decide)
  simp [fresh, space, single, double, back, digit]

theorem scan_digits {digits : Text} (all : ∀ char ∈ digits, isDigit char = true) (done : List Token)
    (text : Text) : scan ⟨done, .integer text⟩ digits = ⟨done, .integer (text ++ digits)⟩ := by
  induction digits generalizing text with
  | nil => rw [List.append_nil]; rfl
  | cons char digits ih =>
    have first : step ⟨done, .integer text⟩ char = ⟨done, .integer (text ++ [char])⟩ :=
      if_pos (by rw [all char List.mem_cons_self])
    rw [scan_cons, first, ih fun later member => all later (List.mem_cons_of_mem _ member),
      List.append_assoc, List.singleton_append]

theorem scan_number {digits : Text} (some : digits ≠ []) (all : ∀ char ∈ digits, isDigit char = true)
    (done : List Token) : scan ⟨done, .between⟩ digits = ⟨done, .integer digits⟩ := by
  cases digits with
  | nil => exact absurd rfl some
  | cons char digits =>
    have first : step ⟨done, .between⟩ char = ⟨done, .integer [char]⟩ :=
      fresh_digit (all char List.mem_cons_self) done
    rw [scan_cons, first, scan_digits (fun later member => all later (List.mem_cons_of_mem _ member)),
      List.singleton_append]

theorem scan_negative {digits : Text} (some : digits ≠ []) (all : ∀ char ∈ digits, isDigit char = true)
    (done : List Token) : scan ⟨done, .between⟩ (45 :: digits) = ⟨done, .integer (45 :: digits)⟩ := by
  cases digits with
  | nil => exact absurd rfl some
  | cons char digits =>
    have minus : step ⟨done, .between⟩ 45 = ⟨done, .minus⟩ := rfl
    have first : step ⟨done, .minus⟩ char = ⟨done, .integer [45, char]⟩ :=
      if_pos (all char List.mem_cons_self)
    rw [scan_cons, minus, scan_cons, first,
      scan_digits (fun later member => all later (List.mem_cons_of_mem _ member))]
    rfl

end Numbers

/-! ## Encodings -/

section Encoding
variable {α β : Type*} {code : α → Nat} {code' : β → Nat} {encode : α → List β}

theorem verbatim_high {block rest : List β} (high : ∀ b ∈ block, 128 ≤ code' b) :
    Verbatim code' (block ++ rest) ↔ Verbatim code' rest := by
  induction block with
  | nil => rfl
  | cons b block ih =>
    have first := high b List.mem_cons_self
    rw [List.cons_append, Verbatim, ih fun c member => high c (List.mem_cons_of_mem _ member)]
    constructor
    · exact fun all => all.2.2
    · exact fun later => ⟨by omega, fun same => by omega, later⟩

/-- An encoding that keeps ASCII and uses nothing of it for other characters does not
change which texts stand for themselves. -/
theorem verbatim_flatMap (ascii : ∀ a, code a < 128 → ∃ b, encode a = [b] ∧ code' b = code a)
    (high : ∀ a, 128 ≤ code a → encode a ≠ [] ∧ ∀ b ∈ encode a, 128 ≤ code' b) (text : List α) :
    Verbatim code' (text.flatMap encode) ↔ Verbatim code text := by
  induction text with
  | nil => rfl
  | cons a rest ih =>
    rw [List.flatMap_cons]
    by_cases small : code a < 128
    · obtain ⟨b, one, same⟩ := ascii a small
      have heads : (∃ d ∈ (rest.flatMap encode).head?, code' d = 37 ∨ code' d = 95) ↔
          ∃ d ∈ rest.head?, code d = 37 ∨ code d = 95 := by
        cases rest with
        | nil => simp
        | cons c rest =>
          by_cases small : code c < 128
          · obtain ⟨d, one, same⟩ := ascii c small
            simp [one, same]
          · obtain ⟨some, all⟩ := high c (Nat.le_of_not_lt small)
            obtain ⟨d, block, cells⟩ := List.exists_cons_of_ne_nil some
            have first := all d (cells ▸ List.mem_cons_self)
            simp only [List.flatMap_cons, cells, List.cons_append, List.head?_cons, Option.mem_some_iff,
              exists_eq_left']
            omega
      rw [one, List.singleton_append, Verbatim, Verbatim, same, heads, ih]
    · have large := Nat.le_of_not_lt small
      rw [verbatim_high (high a large).2, ih, Verbatim]
      constructor
      · exact fun later => ⟨by omega, fun same => by omega, later⟩
      · exact fun all => all.2.2

end Encoding

end NewNameAuction.SqlLexer
