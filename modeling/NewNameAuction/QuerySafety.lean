import NewNameAuction.DatabaseFields
import NewNameAuction.QueryText
import NewNameAuction.SqlLexer

/-! What the server reads in a query. The nickname stands between single quotes as it
is, so a query keeps its meaning exactly for a nickname that stands for itself there.
The nickname of a change request is whatever the client sends. -/
namespace NewNameAuction.QuerySafety
open ByteMemory DatabaseRequests DatabaseFields WideText SqlLexer QueryText

/-- The query that writes its format string: the nickname `%s`, and a number for every
number. -/
def placeholder : DBQuery → DBQuery
  | .soldOwner _ => .soldOwner (wide "%s".toList)
  | .soldExists _ => .soldExists (wide "%s".toList)
  | .insertCelling _ _ _ _ => .insertCelling (wide "%s".toList) 0 0 0
  | .deleteCelling _ => .deleteCelling (wide "%s".toList)
  | .insertSold _ _ _ _ => .insertSold (wide "%s".toList) 0 0 0

/-- The token structure of a format string. -/
def formatKinds (query : DBQuery) : Option (List Kind) :=
  (tokens (utf8 (characters (formatted (pieces (szStringFormat query).toList)
    (arguments (placeholder query)))))).map (·.map Token.kind)

/-- A literal in UTF-8 is this name in UTF-16. -/
def Denotes (literal : Bytes) (name : WString) : Prop := ∃ text, utf8 text = literal ∧ wide text = name

/-- One statement with the structure of the format, and the nickname as its literal. -/
structure Reads (query : DBQuery) (found : List Token) : Prop where
  kinds : some (found.map Token.kind) = formatKinds query
  /-- No `;`. -/
  single : .symbol 59 ∉ found
  literal : ∃ literal, strings found = [literal] ∧ Denotes literal (nickName query)

def KeepsMeaning (query : DBQuery) (text : Bytes) : Prop :=
  ∃ found, tokens text = some found ∧ Reads query found

/-- A nickname of whole characters, without a quote, and with no backslash but in front
of `%` and `_`. -/
def StandsForItself (name : WString) : Prop := Paired name ∧ Verbatim UInt16.toNat name

instance : DecidablePred StandsForItself := fun _ => inferInstanceAs (Decidable (_ ∧ _))

/-! ## The parts of a query -/

section Parts

def frontTokens (query : DBQuery) : List Token := (scan ⟨[], .between⟩ (utf8 (front query))).done

def numberTokens (accountNo : Int64) (endTime : UInt64) (count : Int32) : List Token :=
  [.symbol 44, .integer (utf8 (decimal accountNo.toInt)), .symbol 44,
    .integer (utf8 (decimal endTime.toInt64.toInt)), .symbol 44, .integer (utf8 (decimal count.toInt)), .symbol 41]

def backTokens : DBQuery → List Token
  | .soldOwner _ | .deleteCelling _ => []
  | .soldExists _ => [.symbol 41]
  | .insertCelling _ accountNo endTime count | .insertSold _ accountNo endTime count =>
    numberTokens accountNo endTime count

/-- In front of the nickname there is no other string, and the quote is open. -/
theorem scan_front (query : DBQuery) :
    scan ⟨[], .between⟩ (utf8 (front query)) = ⟨frontTokens query, .quoted singleQuote []⟩ ∧
      strings (frontTokens query) = [] ∧ .symbol 59 ∉ frontTokens query := by
  unfold frontTokens
  cases query <;> (dsimp only [front]; decide +kernel)

theorem digits_bytes (n : Nat) : utf8 (Nat.toDigits 10 n) ≠ [] ∧
    ∀ b ∈ utf8 (Nat.toDigits 10 n), isDigit b = true := by
  have ascii : ∀ c ∈ Nat.toDigits 10 n, c.toNat < 128 := fun c member => by
    have range := digit_range member
    omega
  rw [utf8_of_ascii ascii]
  constructor
  · exact fun none => Nat.toDigits_ne_nil (List.map_eq_nil_iff.mp none)
  · intro b member
    obtain ⟨c, inside, rfl⟩ := List.mem_map.mp member
    have range := digit_range inside
    simp only [isDigit, Bool.and_eq_true, decide_eq_true_eq, UInt8.le_iff_toNat_le, UInt8.toNat_ofNat']
    have low : (48 : UInt8).toNat = 48 := rfl
    have high : (57 : UInt8).toNat = 57 := rfl
    omega

theorem scan_decimal (n : Int) (done : List Token) :
    scan ⟨done, .between⟩ (utf8 (decimal n)) = ⟨done, .integer (utf8 (decimal n))⟩ := by
  obtain ⟨some, all⟩ := digits_bytes n.natAbs
  unfold decimal
  split_ifs
  · exact scan_negative some all done
  · exact scan_number some all done

theorem scan_numbers (accountNo : Int64) (endTime : UInt64) (count : Int32) (done : List Token) (body : Bytes) :
    finish (scan ⟨done, .closing singleQuote body⟩ (utf8 (numbers accountNo endTime count))) =
      some (done ++ .string body :: numberTokens accountNo endTime count) := by
  have first : scan ⟨done, .closing singleQuote body⟩ (utf8 ", ".toList) =
      ⟨done ++ [.string body] ++ [.symbol 44], .between⟩ := rfl
  have next (done : List Token) (digits : Bytes) : scan ⟨done, .integer digits⟩ (utf8 ", ".toList) =
      ⟨done ++ [.integer digits] ++ [.symbol 44], .between⟩ := rfl
  have last (done : List Token) (digits : Bytes) : finish (scan ⟨done, .integer digits⟩ (utf8 ")".toList)) =
      some (done ++ [.integer digits] ++ [.symbol 41]) := rfl
  simp only [numbers, utf8_append, scan_append, first, scan_decimal, next, last]
  simp [numberTokens]

theorem scan_back (query : DBQuery) (done : List Token) (body : Bytes) :
    finish (scan ⟨done, .closing singleQuote body⟩ (utf8 (back query))) =
      some (done ++ .string body :: backTokens query) := by
  cases query with
  | soldOwner _ => rfl
  | soldExists _ => exact congrArg some (List.append_assoc done [.string body] [.symbol 41])
  | insertCelling _ accountNo endTime count => exact scan_numbers accountNo endTime count done body
  | deleteCelling _ => rfl
  | insertSold _ accountNo endTime count => exact scan_numbers accountNo endTime count done body

theorem back_tokens (query : DBQuery) : strings (backTokens query) = [] ∧ .symbol 59 ∉ backTokens query := by
  cases query
  all_goals simp [backTokens, numberTokens, strings]

theorem back_kinds (query : DBQuery) :
    (backTokens query).map Token.kind = (backTokens (placeholder query)).map Token.kind := by
  cases query <;> rfl

theorem front_placeholder (query : DBQuery) : frontTokens (placeholder query) = frontTokens query := by
  cases query <;> rfl

theorem numbers_quoteless (accountNo : Int64) (endTime : UInt64) (count : Int32) :
    '\'' ∉ numbers accountNo endTime count := by
  have comma : '\'' ∉ ", ".toList := by decide
  have close : '\'' ∉ ")".toList := by decide
  have number (n : Int) : '\'' ∉ decimal n := fun member =>
    absurd (decimal_range member).1 (by decide)
  simp only [numbers, List.mem_append, not_or]
  exact ⟨⟨⟨⟨⟨⟨comma, number _⟩, comma⟩, number _⟩, comma⟩, number _⟩, close⟩

/-- No quote stands behind the one after the nickname. -/
theorem back_quoteless (query : DBQuery) : singleQuote ∉ utf8 (back query) := by
  have ascii : Ascii (back query) := fun c member => ascii_back query c (List.mem_cons_of_mem _ member)
  have quoteless : '\'' ∉ back query := by
    cases query with
    | soldOwner _ => exact List.not_mem_nil
    | soldExists _ => exact (by decide : '\'' ∉ ")".toList)
    | insertCelling _ accountNo endTime count => exact numbers_quoteless accountNo endTime count
    | deleteCelling _ => exact List.not_mem_nil
    | insertSold _ accountNo endTime count => exact numbers_quoteless accountNo endTime count
  rw [utf8_of_ascii fun c member => (ascii c member).2, List.mem_map]
  rintro ⟨c, member, same⟩
  have value := congrArg UInt8.toNat same
  have small := (ascii c member).2
  have quote : singleQuote.toNat = '\''.toNat := rfl
  rw [UInt8.toNat_ofNat', quote, Nat.mod_eq_of_lt (by omega)] at value
  exact quoteless (Char.toNat_inj.mp value ▸ member)

end Parts

/-! ## The nickname -/

section Name
variable {query : DBQuery} {name : WString}

theorem strings_append (front back : List Token) : strings (front ++ back) = strings front ++ strings back :=
  List.filterMap_append

/-- In characters, UTF-8 and UTF-16 the same texts stand for themselves. -/
theorem verbatim_utf8_iff (text : List Char) :
    Verbatim UInt8.toNat (utf8 text) ↔ Verbatim UInt16.toNat (wide text) :=
  (verbatim_flatMap (fun _ => utf8_ascii) (fun _ => utf8_high) text).trans
    (verbatim_flatMap (fun _ => wideChar_ascii) (fun _ => wideChar_high) text).symm

/-- A query that stands for itself, token by token. -/
theorem tokens_standing (query : DBQuery) {body : Bytes} (verbatim : Verbatim UInt8.toNat body) :
    tokens (utf8 (front query) ++ (body ++ utf8 ('\'' :: back query))) =
      some (frontTokens query ++ .string body :: backTokens query) := by
  have quote : utf8 ('\'' :: back query) = singleQuote :: utf8 (back query) := utf8_cons _ _
  rw [tokens, scan_append, (scan_front query).1, quote, scan_literal verbatim, scan_back]

theorem format_kinds (query : DBQuery) {body : Bytes} :
    formatKinds query = some ((frontTokens query ++ .string body :: backTokens query).map Token.kind) := by
  have same : szStringFormat query = szStringFormat (placeholder query) := by cases query <;> rfl
  have name : characters (nickName (placeholder query)) = "%s".toList := by
    cases query <;> exact characters_wide _
  have verbatim : Verbatim UInt8.toNat (utf8 "%s".toList) := by decide
  rw [formatKinds, same, utf8_query, name, tokens_standing _ verbatim, front_placeholder, Option.map_some]
  simp only [List.map_append, List.map_cons, back_kinds query]
  rfl

/-- A query keeps its meaning exactly when its nickname stands for itself. -/
theorem reads_iff (query : DBQuery) :
    KeepsMeaning query
        (utf8 (front query) ++ (utf8 (characters (nickName query)) ++ utf8 ('\'' :: back query))) ↔
      StandsForItself (nickName query) := by
  have quote : utf8 ('\'' :: back query) = singleQuote :: utf8 (back query) := utf8_cons _ _
  obtain ⟨opened, none, plain⟩ := scan_front query
  constructor
  · rintro ⟨found, lexed, reads⟩
    rw [tokens, scan_append, opened, quote] at lexed
    obtain ⟨denoted, more, rfl, _, verbatim⟩ := body_read (back_quoteless query) lexed
    obtain ⟨literal, one, text, bytes, same⟩ := reads.literal
    -- The only string of the query is the one that the nickname begins.
    have first : strings (frontTokens query ++ .string denoted :: more) = denoted :: strings more := by
      rw [strings_append, none]
      rfl
    obtain rfl := (List.cons.inj (first.symm.trans one)).1
    have whole : characters (nickName query) = text := by rw [← same, characters_wide]
    rw [whole, List.nil_append] at verbatim
    refine ⟨paired_iff.mpr ⟨text, same⟩, ?_⟩
    rw [← same]
    exact (verbatim_utf8_iff text).mp (verbatim bytes.symm)
  · rintro ⟨paired, verbatim⟩
    have same := wide_characters paired
    have standing : Verbatim UInt8.toNat (utf8 (characters (nickName query))) :=
      (verbatim_utf8_iff _).mpr (same.symm ▸ verbatim)
    obtain ⟨rest, others⟩ := back_tokens query
    refine ⟨_, tokens_standing query standing, (format_kinds query).symm, ?_, _, ?_, _, rfl, same⟩
    · simp [plain, others]
    · rw [strings_append, none, List.nil_append]
      exact congrArg (List.cons _) rest

end Name

/-! ## The queries of a job -/

section Asked
variable {job : DBCheckJob} {row : Option Int64} {block : JobItem} {effects : List DBEffect} {query : DBQuery}

/-- What is asked about is one of the two nicknames of the job. -/
theorem query_named (built : dbAccess job row block = .ok effects) (asked : .query query ∈ effects) :
    ∃ name : NickName, nickName query = name.chars := by
  obtain ⟨myNickName, _, built⟩ := bind_ok.mp built
  obtain ⟨targetNickName, _, built⟩ := bind_ok.mp built
  obtain rfl := Except.ok.inj built
  cases type : job.jobType
  all_goals simp only [type] at asked
  case nicknameChangeCheck =>
    rcases List.mem_cons.mp asked with same | later
    · exact ⟨targetNickName, by rw [DBEffect.query.inj same, nickName]⟩
    · split_ifs at later <;> simp at later
  case nicknameRegisterCheck =>
    rcases List.mem_cons.mp asked with same | later
    · exact ⟨targetNickName, by rw [DBEffect.query.inj same, nickName]⟩
    · split_ifs at later <;> simp at later
  case nicknameRegister =>
    exact ⟨myNickName, by rw [DBEffect.query.inj (List.mem_singleton.mp asked), nickName]⟩
  case nicknameSold =>
    rcases List.mem_cons.mp asked with same | later
    · exact ⟨myNickName, by rw [DBEffect.query.inj same, nickName]⟩
    · split_ifs at later
      · exact ⟨myNickName, by rw [DBEffect.query.inj (List.mem_singleton.mp later), nickName]⟩
      · cases later
  all_goals cases asked

/-- Every query that a job leads to keeps its meaning exactly when its nickname stands for
itself, whatever was in the buffers before. -/
theorem query_keeps_meaning_iff (built : dbAccess job row block = .ok effects)
    (asked : .query query ∈ effects) (connector : CDBConnector) :
    KeepsMeaning query (sentQuery connector query).1 ↔ StandsForItself (nickName query) := by
  obtain ⟨name, same⟩ := query_named built asked
  rw [sent_text connector (same ▸ name.fits) (same ▸ name.plain)]
  exact reads_iff query

/-- A connector before its first query. -/
def blankConnector : CDBConnector where
  query := List.replicate eQueryMaxLen 0
  queryUTF8 := List.replicate eQueryMaxLen 0
  length_query := List.length_replicate
  length_queryUTF8 := List.length_replicate

/-- `Kim\%` is registered under its name: in front of `%` a backslash is a backslash. -/
theorem kim_keeps_meaning : KeepsMeaning (.insertCelling [75, 105, 109, 92, 37] 5 100 1)
    (sentQuery blankConnector (.insertCelling [75, 105, 109, 92, 37] 5 100 1)).1 := by
  have built : dbAccess ⟨.nicknameRegister, 5, 7, 100, 1, [75, 105, 109, 92, 37], []⟩ none freshItem =
      .ok [.query (.insertCelling [75, 105, 109, 92, 37] 5 100 1)] := rfl
  exact (query_keeps_meaning_iff built List.mem_cons_self blankConnector).mpr (by decide)

end Asked

/-! ## What a client sends -/

section Sent

theorem wcscpyS_copied {words : List UInt16} {name : NickName} (copied : wcscpyS (cString words) = .ok name) :
    name.chars = cString words := by
  rw [wcscpyS_cString, wcscpyS] at copied
  split_ifs at copied
  exact congrArg NickName.chars (Except.ok.inj copied).symm

/-- The nickname of a change request is asked about as the client sent it. -/
theorem change_request_asks {s s' : Store} {locals : Locals} {block : DBCheckJob} {pPlayer : Player}
    {pPacket : Bytes} {sessionID : Int64} {ret : Bool} {effects : List Effect}
    (ran : s.packetProcReqChangeNickname locals block pPlayer pPacket sessionID = .ok (ret, s', effects)) :
    ∃ job, effects = [.enqueueDB job] ∧ ∀ row item, ∃ answer, dbAccess job row item =
      .ok (.query (.soldOwner (Store.localString locals (getNickName locals.nickName pPacket).1)) :: answer) := by
  unfold Store.packetProcReqChangeNickname at ran
  dsimp only at ran
  split at ran
  · cases ran
  · obtain ⟨target, copied, ran⟩ := bind_ok.mp ran
    obtain rfl := (Prod.mk.inj (Prod.mk.inj (Except.ok.inj ran)).2).2
    refine ⟨_, rfl, fun row item => ?_⟩
    have same : target.chars = Store.localString locals (getNickName locals.nickName pPacket).1 :=
      wcscpyS_copied copied
    rw [← same]
    exact ⟨_, change_check_access pPlayer.nickName target rfl rfl (wcscpyS_chars target)⟩

/-- `'OR 1=1#`. -/
def quoteName : WString := [39, 79, 82, 32, 49, 61, 49, 35]

/-- A `REQ_CHANGE_NICKNAME` for that name. -/
def quoteRequest : Bytes := [8, 0, 39, 0, 79, 0, 82, 0, 32, 0, 49, 0, 61, 0, 49, 0, 35, 0, 0, 0, 0, 0]

/-- The quote of the name ends the string, and the rest is a condition that holds of every
row, and a comment. -/
theorem quote_widens_lookup :
    ∃ (s s' : Store) (job : DBCheckJob) (effects : List DBEffect),
      Run Store.Steps (.empty (fun _ => .zero) 0)
        [.job (.onClientJoin 7) (.zero 0), .job (.nicknameRegisterAble 7 0) (.zero 0)] s ∧
      s.runJob (.zero 0) (.onRecv 7 quoteRequest) = .ok (s', [.enqueueDB job]) ∧
      dbAccess job none freshItem = .ok effects ∧ .query (.soldOwner quoteName) ∈ effects ∧
      ∀ connector, tokens (sentQuery connector (.soldOwner quoteName)).1 =
          some (frontTokens (.soldOwner quoteName) ++
            [.string [], .word [79, 82], .integer [49], .symbol 61, .integer [49]]) ∧
        ¬KeepsMeaning (.soldOwner quoteName) (sentQuery connector (.soldOwner quoteName)).1 := by
  have text (connector : CDBConnector) : (sentQuery connector (.soldOwner quoteName)).1 = _ :=
    sent_text connector (by decide) (by decide)
  obtain ⟨s, s', job, effects, run, ran, access, asked⟩ :
      ∃ (s s' : Store) (job : DBCheckJob) (effects : List DBEffect),
        Run Store.Steps (.empty (fun _ => .zero) 0)
          [.job (.onClientJoin 7) (.zero 0), .job (.nicknameRegisterAble 7 0) (.zero 0)] s ∧
        s.runJob (.zero 0) (.onRecv 7 quoteRequest) = .ok (s', [.enqueueDB job]) ∧
        dbAccess job none freshItem = .ok effects ∧ .query (.soldOwner quoteName) ∈ effects :=
    ⟨_, _, _, _, .cons ⟨_, rfl⟩ (.single ⟨_, rfl⟩), rfl, rfl, List.mem_cons_self⟩
  refine ⟨s, s', job, effects, run, ran, access, asked, fun connector => ⟨?_, ?_⟩⟩
  · rw [text]
    decide +kernel
  · rw [text, reads_iff]
    exact fun stands => stands.2.1 rfl

end Sent

end NewNameAuction.QuerySafety
