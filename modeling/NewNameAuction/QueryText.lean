import NewNameAuction.DatabaseRequests
import NewNameAuction.WideText

/-! The text of a query, as `sendQuery` and `sendQuery_Save` build it: formatted into
`Query`, then the whole of that buffer, with whatever stands behind the terminator,
converted into `QueryUTF8`. The conversion may run out of space behind the text, never
inside it. -/
namespace NewNameAuction.QueryText
open ByteMemory DatabaseRequests WideText

def eQueryMaxLen : Nat := 2048

/-! ## Formatting -/

/-- A piece of a format string: a character, or one of the conversions in use. -/
inductive Piece
  | char (c : Char)
  | wideString
  | longLong
  | int
  deriving DecidableEq

def pieces : List Char → List Piece
  | '%' :: 's' :: rest => .wideString :: pieces rest
  | '%' :: 'l' :: 'l' :: 'd' :: rest => .longLong :: pieces rest
  | '%' :: 'd' :: rest => .int :: pieces rest
  | c :: rest => .char c :: pieces rest
  | [] => []

/-- An argument as its conversion takes it. -/
inductive Argument
  | wideString (string : WString)
  | longLong (value : Int64)
  | int (value : Int32)

/-- A number as `%lld` and `%d` write it. -/
def decimal (n : Int) : List Char :=
  if n < 0 then '-' :: Nat.toDigits 10 n.natAbs else Nat.toDigits 10 n.natAbs

def formatted : List Piece → List Argument → WString
  | .char c :: rest, args => wideChar c ++ formatted rest args
  | .wideString :: rest, .wideString string :: args => string ++ formatted rest args
  | .longLong :: rest, .longLong value :: args => wide (decimal value.toInt) ++ formatted rest args
  | .int :: rest, .int value :: args => wide (decimal value.toInt) ++ formatted rest args
  | _, _ => []

/-- `StringCchVPrintf`: the text, cut off where the buffer ends, and a terminator. What
stood behind it stays. -/
def stringCchVPrintf (pszDest : List UInt16) (szStringFormat : String) (argList : List Argument) :
    List UInt16 :=
  let text := (formatted (pieces szStringFormat.toList) argList).take (pszDest.length - 1)
  text ++ 0 :: pszDest.drop (text.length + 1)

/-- The bytes of as many characters as there is room for. -/
def fitting (room : Nat) : List Char → Bytes
  | [] => []
  | c :: rest =>
    if (String.utf8EncodeChar c).length ≤ room then
      String.utf8EncodeChar c ++ fitting (room - (String.utf8EncodeChar c).length) rest
    else []

/-- `WideCharToMultiByte` of a whole buffer to UTF-8: character by character, until the
next does not fit. Nobody looks at whether it ended there. -/
def wideCharToMultiByte (lpWideCharStr : List UInt16) (lpMultiByteStr : Bytes) : Bytes :=
  let bytes := fitting lpMultiByteStr.length (characters lpWideCharStr)
  bytes ++ lpMultiByteStr.drop bytes.length

theorem length_fitting (room : Nat) (text : List Char) : (fitting room text).length ≤ room := by
  induction text generalizing room with
  | nil => exact Nat.zero_le room
  | cons c rest ih =>
    rw [fitting]
    split_ifs with fits
    · have later := ih (room - (String.utf8EncodeChar c).length)
      rw [List.length_append]
      omega
    · exact Nat.zero_le room

/-! ## The connector -/

/-- The two buffers of a `CDBConnector`. -/
structure CDBConnector where
  query : List UInt16
  queryUTF8 : Bytes
  length_query : query.length = eQueryMaxLen
  length_queryUTF8 : queryUTF8.length = eQueryMaxLen

namespace CDBConnector
variable (connector : CDBConnector) (szStringFormat : String) (argList : List Argument)

/-- The part that `sendQuery` and `sendQuery_Save` share, up to `mysql_query`. -/
def format : CDBConnector where
  query := stringCchVPrintf connector.query szStringFormat argList
  queryUTF8 := wideCharToMultiByte (stringCchVPrintf connector.query szStringFormat argList)
    connector.queryUTF8
  length_query := by
    have length := connector.length_query
    have some : 1 ≤ eQueryMaxLen := by decide
    simp only [stringCchVPrintf, List.length_append, List.length_cons, List.length_drop, List.length_take]
    omega
  length_queryUTF8 := by
    have length := connector.length_queryUTF8
    have short := length_fitting connector.queryUTF8.length
      (characters (stringCchVPrintf connector.query szStringFormat argList))
    simp only [wideCharToMultiByte, List.length_append, List.length_drop]
    omega

/-- What `mysql_query` is given: the bytes up to the terminator. -/
def text : Bytes := connector.queryUTF8.takeWhile (· ≠ 0)

/-- `sendQuery`, up to the answer of the server. -/
def sendQuery : Bytes × CDBConnector :=
  ((connector.format szStringFormat argList).text, connector.format szStringFormat argList)

/-- `sendQuery_Save` builds the same text. What it stores is the server's answer. -/
def sendQuerySave : Bytes × CDBConnector := connector.sendQuery szStringFormat argList

end CDBConnector

/-! ## The queries -/

/-- The format strings of `DBAccessThread`. -/
def szStringFormat : DBQuery → String
  | .soldOwner _ => "SELECT OwnerID FROM soldtable WHERE NickName = '%s'"
  | .soldExists _ => "SELECT EXIST (SELECT * FROM soldtable WHERE NickName = '%s')"
  | .insertCelling _ _ _ _ => "INSERT INTO cellingtable VALUES ('%s', %lld, %lld, %d)"
  | .deleteCelling _ => "DELETE FROM cellingtable WHERE NickName = '%s'"
  | .insertSold _ _ _ _ => "INSERT INTO soldtable VALUES ('%s', %lld, %lld, %d)"

/-- `EndTime` is unsigned, and is written as `%lld` takes it. -/
def arguments : DBQuery → List Argument
  | .soldOwner nickName | .soldExists nickName | .deleteCelling nickName => [.wideString nickName]
  | .insertCelling nickName accountNo endTime count | .insertSold nickName accountNo endTime count =>
    [.wideString nickName, .longLong accountNo, .longLong endTime.toInt64, .int count]

def sentQuery (connector : CDBConnector) (query : DBQuery) : Bytes × CDBConnector :=
  match query with
  | .soldOwner _ | .soldExists _ => connector.sendQuerySave (szStringFormat query) (arguments query)
  | _ => connector.sendQuery (szStringFormat query) (arguments query)

def nickName : DBQuery → WString
  | .soldOwner nickName | .soldExists nickName | .deleteCelling nickName => nickName
  | .insertCelling nickName _ _ _ | .insertSold nickName _ _ _ => nickName

/-- The format string up to the nickname. -/
def front : DBQuery → List Char
  | .soldOwner _ => "SELECT OwnerID FROM soldtable WHERE NickName = '".toList
  | .soldExists _ => "SELECT EXIST (SELECT * FROM soldtable WHERE NickName = '".toList
  | .insertCelling _ _ _ _ => "INSERT INTO cellingtable VALUES ('".toList
  | .deleteCelling _ => "DELETE FROM cellingtable WHERE NickName = '".toList
  | .insertSold _ _ _ _ => "INSERT INTO soldtable VALUES ('".toList

/-- The numbers of a registration or of a sale. -/
def numbers (accountNo : Int64) (endTime : UInt64) (count : Int32) : List Char :=
  ", ".toList ++ decimal accountNo.toInt ++ ", ".toList ++ decimal endTime.toInt64.toInt ++ ", ".toList ++
    decimal count.toInt ++ ")".toList

/-- What stands behind the quote after the nickname. -/
def back : DBQuery → List Char
  | .soldOwner _ | .deleteCelling _ => []
  | .soldExists _ => ")".toList
  | .insertCelling _ accountNo endTime count | .insertSold _ accountNo endTime count =>
    numbers accountNo endTime count

section Text
variable {query : DBQuery}

theorem formatted_chars (text : List Char) (rest : List Piece) (args : List Argument) :
    formatted (text.map .char ++ rest) args = wide text ++ formatted rest args := by
  induction text with
  | nil => rfl
  | cons c text ih =>
    rw [List.map_cons, List.cons_append, formatted, ih, wide, wide, List.flatMap_cons, List.append_assoc]

theorem formatted_nil (args : List Argument) : formatted [] args = [] := by
  cases args <;> rfl

theorem formatted_chars_end (text : List Char) (args : List Argument) :
    formatted (text.map .char) args = wide text := by
  simpa [formatted_nil] using formatted_chars text [] args

theorem wide_append (text more : List Char) : wide (text ++ more) = wide text ++ wide more :=
  List.flatMap_append

/-- A format with one `%s` and nothing else to convert. -/
theorem formatted_name {format : List Piece} {front back : List Char} {name : WString}
    (cut : format = front.map .char ++ .wideString :: back.map .char) :
    formatted format [.wideString name] = wide front ++ name ++ wide back := by
  rw [cut, formatted_chars, formatted, formatted_chars_end, List.append_assoc]

/-- The conversions behind the nickname of a registration or of a sale. -/
def numberPieces : List Piece :=
  "', ".toList.map .char ++ .longLong :: (", ".toList.map .char ++ .longLong ::
    (", ".toList.map .char ++ .int :: ")".toList.map .char))

/-- A format that goes on with the three numbers. -/
theorem formatted_numbers {format : List Piece} {front : List Char} {name : WString} {accountNo : Int64}
    {endTime : UInt64} {count : Int32} (cut : format = front.map .char ++ .wideString :: numberPieces) :
    formatted format [.wideString name, .longLong accountNo, .longLong endTime.toInt64, .int count] =
      wide front ++ name ++ wide ('\'' :: numbers accountNo endTime count) := by
  have quoted : '\'' :: numbers accountNo endTime count = "', ".toList ++ decimal accountNo.toInt ++
      ", ".toList ++ decimal endTime.toInt64.toInt ++ ", ".toList ++ decimal count.toInt ++ ")".toList := rfl
  rw [cut, formatted_chars, formatted, numberPieces, formatted_chars, formatted, formatted_chars, formatted,
    formatted_chars, formatted, formatted_chars_end, quoted]
  simp only [wide_append, List.append_assoc]

/-- A query is its nickname between two parts that do not depend on it. -/
theorem formatted_query (query : DBQuery) :
    formatted (pieces (szStringFormat query).toList) (arguments query) =
      wide (front query) ++ nickName query ++ wide ('\'' :: back query) := by
  cases query with
  | soldOwner _ => exact formatted_name (by dsimp only [szStringFormat, front, back]; decide +kernel)
  | soldExists _ => exact formatted_name (by dsimp only [szStringFormat, front, back]; decide +kernel)
  | insertCelling name accountNo endTime count =>
    have cut : pieces (szStringFormat (.insertCelling name accountNo endTime count)).toList =
        (front (.insertCelling name accountNo endTime count)).map .char ++ .wideString :: numberPieces := by
      dsimp only [szStringFormat, front]
      decide +kernel
    exact formatted_numbers cut
  | deleteCelling _ => exact formatted_name (by dsimp only [szStringFormat, front, back]; decide +kernel)
  | insertSold name accountNo endTime count =>
    have cut : pieces (szStringFormat (.insertSold name accountNo endTime count)).toList =
        (front (.insertSold name accountNo endTime count)).map .char ++ .wideString :: numberPieces := by
      dsimp only [szStringFormat, front]
      decide +kernel
    exact formatted_numbers cut

/-- What fits is converted, whatever stands behind it. -/
theorem fitting_append {room : Nat} {text : List Char} (fits : (utf8 text).length ≤ room) (more : List Char) :
    fitting room (text ++ more) = utf8 text ++ fitting (room - (utf8 text).length) more := by
  induction text generalizing room with
  | nil => rfl
  | cons c text ih =>
    rw [utf8_cons, List.length_append] at fits
    rw [List.cons_append, fitting, if_pos (by omega), ih (by omega), utf8_cons, List.append_assoc,
      List.length_append, Nat.sub_sub]

/-- A text that is short enough reaches `mysql_query` whole and alone. -/
theorem format_text {connector : CDBConnector} {szStringFormat : String} {argList : List Argument}
    {text : WString} (same : formatted (pieces szStringFormat.toList) argList = text)
    (short : 3 * text.length + 1 ≤ eQueryMaxLen) (plain : 0 ∉ text) :
    (connector.format szStringFormat argList).text = utf8 (characters text) := by
  have whole : text.take (connector.query.length - 1) = text := by
    rw [connector.length_query]
    exact List.take_of_length_le (by omega)
  have buffer : stringCchVPrintf connector.query szStringFormat argList =
      text ++ 0 :: connector.query.drop (text.length + 1) := by
    simp only [stringCchVPrintf, same, whole]
  have width := length_utf8 text
  have terminator (rest : List UInt16) : characters (0 :: rest) = Char.ofNat 0 :: characters rest :=
    characters_single (by decide) rest
  have nul : String.utf8EncodeChar (Char.ofNat 0) = [0] := by decide
  have room : [(0 : UInt8)].length ≤ eQueryMaxLen - (utf8 (characters text)).length := by
    rw [List.length_singleton]
    omega
  obtain ⟨behind, bytes⟩ : ∃ behind, wideCharToMultiByte
      (stringCchVPrintf connector.query szStringFormat argList) connector.queryUTF8 =
      utf8 (characters text) ++ 0 :: behind := by
    rw [buffer, wideCharToMultiByte, connector.length_queryUTF8, characters_append (by decide), terminator,
      fitting_append (by omega), fitting, nul, if_pos room, List.append_assoc]
    exact ⟨_, rfl⟩
  have passed : ∀ b ∈ utf8 (characters text), decide (b ≠ 0) = true := fun b member =>
    decide_eq_true fun zero => zero_notMem_utf8 plain (zero ▸ member)
  have upTo : (connector.format szStringFormat argList).text = (wideCharToMultiByte
      (stringCchVPrintf connector.query szStringFormat argList) connector.queryUTF8).takeWhile (· ≠ 0) := rfl
  rw [upTo, bytes, List.takeWhile_append_of_pos passed, List.takeWhile_cons_of_neg (by decide),
    List.append_nil]

/-! ## The parts of a query -/

theorem digit_range {n : Nat} {c : Char} (member : c ∈ Nat.toDigits 10 n) : 48 ≤ c.toNat ∧ c.toNat ≤ 57 :=
  Char.isDigit_iff_toNat.mp (Nat.isDigit_of_mem_toDigits (by decide) (by decide) member)

theorem decimal_range {n : Int} {c : Char} (member : c ∈ decimal n) : 45 ≤ c.toNat ∧ c.toNat ≤ 57 := by
  unfold decimal at member
  split_ifs at member
  · rcases List.mem_cons.mp member with rfl | member
    · decide
    · have range := digit_range member
      omega
  · have range := digit_range member
    omega

theorem length_decimal {n : Int} (small : n.natAbs < 10 ^ 19) : (decimal n).length ≤ 20 := by
  have digits : (Nat.toDigits 10 n.natAbs).length ≤ 19 :=
    (Nat.length_toDigits_le_iff (by decide) (by decide)).mpr small
  unfold decimal
  split_ifs
  · rw [List.length_cons]
    omega
  · omega

theorem int64_small (value : Int64) : value.toInt.natAbs < 10 ^ 19 := by
  have low := value.le_toInt
  have high := value.toInt_lt
  omega

theorem int32_small (value : Int32) : value.toInt.natAbs < 10 ^ 19 := by
  have low := value.le_toInt
  have high := value.toInt_lt
  omega

/-- The fixed characters and those of numbers are in ASCII. -/
def Ascii (text : List Char) : Prop := ∀ c ∈ text, 0 < c.toNat ∧ c.toNat < 128

theorem ascii_append {text more : List Char} (first : Ascii text) (later : Ascii more) : Ascii (text ++ more) :=
  fun c member => (List.mem_append.mp member).elim (first c) (later c)

theorem ascii_decimal (n : Int) : Ascii (decimal n) := fun c member => by
  have range := decimal_range member
  omega

instance : DecidablePred Ascii := fun text => List.decidableBAll _ text

theorem ascii_front (query : DBQuery) : Ascii (front query) := by
  cases query <;> (dsimp only [front]; decide +kernel)

theorem ascii_numbers (accountNo : Int64) (endTime : UInt64) (count : Int32) :
    Ascii (numbers accountNo endTime count) := by
  have comma : Ascii ", ".toList := by decide
  have close : Ascii ")".toList := by decide
  unfold numbers
  exact ascii_append (ascii_append (ascii_append (ascii_append (ascii_append (ascii_append comma
    (ascii_decimal _)) comma) (ascii_decimal _)) comma) (ascii_decimal _)) close

theorem ascii_back (query : DBQuery) : Ascii ('\'' :: back query) := by
  have quote : Ascii ['\''] := by decide
  refine ascii_append quote ?_
  cases query with
  | soldOwner _ => exact fun _ member => by cases member
  | soldExists _ => exact (by decide : Ascii ")".toList)
  | insertCelling _ accountNo endTime count => exact ascii_numbers accountNo endTime count
  | deleteCelling _ => exact fun _ member => by cases member
  | insertSold _ accountNo endTime count => exact ascii_numbers accountNo endTime count

theorem length_front (query : DBQuery) : (front query).length ≤ 60 := by
  cases query <;> (dsimp only [front]; decide +kernel)

theorem length_numbers (accountNo : Int64) (endTime : UInt64) (count : Int32) :
    (numbers accountNo endTime count).length ≤ 70 := by
  have first := length_decimal (int64_small accountNo)
  have second := length_decimal (int64_small endTime.toInt64)
  have third := length_decimal (int32_small count)
  have comma : ", ".toList.length = 2 := rfl
  have close : ")".toList.length = 1 := rfl
  -- Out of the way: unifying string literals is slow.
  unfold numbers
  generalize ", ".toList = commaText at comma
  generalize ")".toList = closeText at close
  simp only [List.length_append]
  omega

theorem length_back (query : DBQuery) : (back query).length ≤ 70 := by
  cases query with
  | soldOwner _ => exact Nat.zero_le 70
  | soldExists _ => exact (by decide : ")".toList.length ≤ 70)
  | insertCelling _ accountNo endTime count => exact length_numbers accountNo endTime count
  | deleteCelling _ => exact Nat.zero_le 70
  | insertSold _ accountNo endTime count => exact length_numbers accountNo endTime count

/-- In ASCII a `WCHAR` is a character. -/
theorem wide_ascii {text : List Char} (ascii : Ascii text) :
    (wide text).length = text.length ∧ 0 ∉ wide text := by
  induction text with
  | nil => exact ⟨rfl, List.not_mem_nil⟩
  | cons c text ih =>
    obtain ⟨positive, small⟩ := ascii c List.mem_cons_self
    obtain ⟨w, one, value⟩ := wideChar_ascii small
    obtain ⟨length, plain⟩ := ih fun d member => ascii d (List.mem_cons_of_mem _ member)
    rw [wide, List.flatMap_cons, ← wide, one, List.singleton_append]
    refine ⟨by rw [List.length_cons, List.length_cons, length], fun zero => ?_⟩
    rcases List.mem_cons.mp zero with here | later
    · rw [← here] at value
      exact absurd value (Nat.ne_of_lt positive)
    · exact plain later

/-- The text of a query in UTF-8: the quote behind the nickname is no second half of a pair. -/
theorem utf8_query (query : DBQuery) :
    utf8 (characters (formatted (pieces (szStringFormat query).toList) (arguments query))) =
      utf8 (front query) ++ (utf8 (characters (nickName query)) ++ utf8 ('\'' :: back query)) := by
  obtain ⟨w, rest, first, alone⟩ : ∃ w rest, wide ('\'' :: back query) = w :: rest ∧ ¬IsLow w :=
    ⟨_, _, rfl, by decide⟩
  rw [formatted_query, List.append_assoc, characters_wide_append, utf8_append, first,
    characters_append alone, ← first, characters_wide, utf8_append]

/-- What is sent about a nickname of at most nine `WCHAR`s. -/
theorem sent_text {query : DBQuery} (connector : CDBConnector)
    (short : (nickName query).length < nicknameMaxLength) (plain : 0 ∉ nickName query) :
    (sentQuery connector query).1 =
      utf8 (front query) ++ (utf8 (characters (nickName query)) ++ utf8 ('\'' :: back query)) := by
  have either : (sentQuery connector query).1 =
      (connector.format (szStringFormat query) (arguments query)).text := by
    cases query <;> rfl
  have frontAscii := wide_ascii (ascii_front query)
  have backAscii := wide_ascii (ascii_back query)
  have frontLength := length_front query
  have backLength := length_back query
  unfold nicknameMaxLength at short
  rw [either, ← utf8_query, format_text rfl]
  · rw [formatted_query]
    simp only [List.length_append, frontAscii.1, backAscii.1, List.length_cons, eQueryMaxLen]
    omega
  · rw [formatted_query]
    simp only [List.mem_append, not_or]
    exact ⟨⟨frontAscii.2, plain⟩, backAscii.2⟩

end Text

end NewNameAuction.QueryText
