import Decentagram.RaOnchain.DecentServerCert

/-! # Flat JSON objects

The texts of JSON objects whose members are strings, numbers and Booleans, and what the search of
`jsonSimpleReadValPos` makes of them.
-/

namespace Decentagram.RaOnchain.ReportJson

open DecentServerCert

/-! ## Grammar -/

def ascii (text : String) : Bytes := text.toList.map fun char => UInt8.ofNat char.toNat

/-- What may follow a backslash, without the `u`. -/
def escapes : Bytes := quote :: ascii "\\/bfnrt"

def hexDigits : Bytes := ascii "0123456789abcdefABCDEF"

def spaces : Bytes := [0x20, 0x09, 0x0a, 0x0d]

def numberChars : Bytes := ascii "0123456789+-.eE"

/-- A character of a string, as it is spelled. -/
inductive JsonChar where
  | plain (byte : UInt8) (isPlain : 0x20 ≤ byte ∧ byte ≠ quote ∧ byte ≠ 0x5c)
  | escape (letter : UInt8) (isEscape : letter ∈ escapes)
  | unicode (digits : Vector UInt8 4) (areHex : ∀ digit ∈ digits.toList, digit ∈ hexDigits)

def JsonChar.text : JsonChar → Bytes
  | .plain byte _ => [byte]
  | .escape letter _ => [0x5c, letter]
  | .unicode digits _ => 0x5c :: 0x75 :: digits.toList

def JsonChar.isEscapedQuote : JsonChar → Bool
  | .escape letter _ => letter = quote
  | _ => false

structure JsonString where
  chars : List JsonChar

namespace JsonString

/-- What stands between the quotes. -/
def body (string : JsonString) : Bytes := string.chars.flatMap JsonChar.text

def text (string : JsonString) : Bytes := (quote :: string.body) ++ [quote]

def HasEscapedQuote (string : JsonString) : Prop := ∃ char ∈ string.chars, char.isEscapedQuote

end JsonString

inductive Scalar where
  | string (value : JsonString)
  | number (chars : Bytes) (areNumberChars : chars ≠ [] ∧ ∀ char ∈ chars, char ∈ numberChars)
  | bool (value : Bool)

def Scalar.text : Scalar → Bytes
  | .string value => value.text
  | .number chars _ => chars
  | .bool true => ascii "true"
  | .bool false => ascii "false"

abbrev Space := { bytes : Bytes // ∀ byte ∈ bytes, byte ∈ spaces }

structure Member where
  beforeKey : Space
  key : JsonString
  afterKey : Space
  beforeValue : Space
  value : Scalar
  afterValue : Space

def colon : UInt8 := 0x3a

def comma : UInt8 := 0x2c

/-- What stands between the key and the value. -/
def Member.between (member : Member) : Bytes := member.afterKey.1 ++ colon :: member.beforeValue.1

def Member.text (member : Member) : Bytes :=
  member.beforeKey.1 ++ (member.key.text ++ (member.between ++ (member.value.text ++ member.afterValue.1)))

def membersText : List Member → Bytes
  | [] => []
  | [member] => member.text
  | member :: members => member.text ++ comma :: membersText members

structure FlatObject where
  leading : Space
  members : List Member
  trailing : Space

def FlatObject.text (object : FlatObject) : Bytes :=
  object.leading.1 ++ 0x7b :: (membersText object.members ++ 0x7d :: object.trailing.1)

/-! ## Positions -/

/-- What stands before the key of a member that follows others. -/
def FlatObject.textBefore (object : FlatObject) (before : List Member) (member : Member) : Bytes :=
  object.leading.1 ++ 0x7b :: (before.flatMap fun other => other.text ++ [comma]) ++ member.beforeKey.1

/-- The position behind the closing quote of the key. -/
def FlatObject.keyEnd (object : FlatObject) (before : List Member) (member : Member) : Nat :=
  (object.textBefore before member).length + member.key.text.length

/-- The position behind the opening quote of the value. -/
def FlatObject.valuePos (object : FlatObject) (before : List Member) (member : Member) : Nat :=
  object.keyEnd before member + member.between.length + 1

theorem membersText_append (before after : List Member) (member : Member) :
    ∃ rest, membersText (before ++ member :: after) =
      (before.flatMap fun other => other.text ++ [comma]) ++ (member.text ++ rest) := by
  induction before with
  | nil =>
    cases after with
    | nil => exact ⟨[], by simp [membersText]⟩
    | cons next after => exact ⟨comma :: membersText (next :: after), by simp [membersText]⟩
  | cons other before inductionHypothesis =>
    obtain ⟨rest, isText⟩ := inductionHypothesis
    refine ⟨rest, ?_⟩
    have nonempty : before ++ member :: after ≠ [] := by simp
    obtain ⟨next, others, isCons⟩ := List.exists_cons_of_ne_nil nonempty
    rw [List.cons_append, isCons, membersText, ← isCons, isText]
    · simp
    · simp

theorem quote_mem_text_iff (char : JsonChar) : quote ∈ char.text ↔ char.isEscapedQuote := by
  have noQuote : quote ∉ hexDigits := by decide
  cases char with
  | plain byte isPlain => simp [JsonChar.text, JsonChar.isEscapedQuote, Ne.symm isPlain.2.1]
  | escape letter isEscape =>
    simp only [JsonChar.text, JsonChar.isEscapedQuote, List.mem_cons, List.not_mem_nil, or_false,
      decide_eq_true_eq]
    rw [or_iff_right (by decide), eq_comm]
  | unicode digits areHex =>
    simp only [JsonChar.text, JsonChar.isEscapedQuote, List.mem_cons]
    refine iff_of_false ?_ (by simp)
    rintro (isBackslash | isLetter | isDigit)
    · exact absurd isBackslash (by decide)
    · exact absurd isLetter (by decide)
    · exact noQuote (areHex quote isDigit)

theorem quote_mem_body_iff (string : JsonString) : quote ∈ string.body ↔ string.HasEscapedQuote := by
  rw [JsonString.body, List.mem_flatMap]
  exact exists_congr fun char => and_congr_right fun _ => quote_mem_text_iff char

theorem quote_not_mem_between (member : Member) : quote ∉ member.between := by
  have noQuote : quote ∉ spaces := by decide
  rw [Member.between, List.mem_append, List.mem_cons]
  rintro (inSpace | isColon | inSpace)
  · exact noQuote (member.afterKey.2 quote inSpace)
  · exact absurd isColon (by decide)
  · exact noQuote (member.beforeValue.2 quote inSpace)

/-- The text around the value of a member. -/
theorem quotedAfter {object : FlatObject} {before after : List Member} {member : Member}
    {value : JsonString} (isMember : object.members = before ++ member :: after)
    (isString : member.value = .string value) :
    ∃ rest, QuotedAfter object.text (object.textBefore before member ++ quote :: member.key.body)
      member.between value.body rest := by
  obtain ⟨tail, isText⟩ := membersText_append before after member
  refine ⟨member.afterValue.1 ++ (tail ++ 0x7d :: object.trailing.1), ?_, quote_not_mem_between member,
    by simp⟩
  simp [FlatObject.text, FlatObject.textBefore, isMember, isText, Member.text, isString, Scalar.text,
    JsonString.text]

/-- In every flat object, for every member with a string and every key: the search answers with the
    position and the length of the value of the member just when the quoted key stands in the text for
    the first time where the key of the member ends, and the value has no escaped quote. -/
theorem jsonSimpleReadValPos_iff (object : FlatObject) (before after : List Member) (member : Member)
    (value key : JsonString) (isMember : object.members = before ++ member :: after)
    (isString : member.value = .string value) :
    jsonSimpleReadValPos object.text key.text =
        .ok (object.valuePos before member, value.body.length) ↔
      (∃ i, FirstOccurrence object.text key.text i ∧
        i + key.text.length = object.keyEnd before member) ∧ ¬ value.HasEscapedQuote := by
  obtain ⟨rest, quoted⟩ := quotedAfter isMember isString
  have keyEnd : (object.textBefore before member ++ quote :: member.key.body).length + 1 =
      object.keyEnd before member := by
    simp [FlatObject.keyEnd, JsonString.text]
    omega
  have found := quoted.lookup_iff (quote :: key.body)
  rwa [keyEnd, quote_mem_body_iff] at found

/-! ## Two reports -/

def noSpace : Space := ⟨[], by simp⟩

/-- A string without characters to escape. -/
def plainString (text : String)
    (isPlain : ∀ byte ∈ ascii text, 0x20 ≤ byte ∧ byte ≠ quote ∧ byte ≠ 0x5c) : JsonString where
  chars := (ascii text).attach.map fun byte => .plain byte.1 (isPlain byte.1 byte.2)

def member (key value : JsonString) : Member where
  beforeKey := noSpace
  key
  afterKey := noSpace
  beforeValue := noSpace
  value := .string value
  afterValue := noSpace

def quoteStatus : JsonString := plainString "isvEnclaveQuoteStatus" (by decide +kernel)

def nonceKey : JsonString := plainString "nonce" (by decide +kernel)

def okStatus : JsonString := plainString "OK" (by decide +kernel)

/-- A report with a nonce that the caller has chosen. -/
def report (nonce : JsonString) : FlatObject where
  leading := noSpace
  members := [member nonceKey nonce, member quoteStatus okStatus]
  trailing := noSpace

theorem jsonSimpleReadValPos_iff_ok :
    jsonSimpleReadValPos (report okStatus).text quoteStatus.text = .ok (39, 2) := by
  have noEscapedQuote : ¬ okStatus.HasEscapedQuote := by
    rw [← quote_mem_body_iff]
    decide
  exact (jsonSimpleReadValPos_iff (report okStatus) [member nonceKey okStatus] []
    (member quoteStatus okStatus) okStatus quoteStatus rfl rfl).mpr
      ⟨⟨14, by decide +kernel, rfl⟩, noEscapedQuote⟩

/-- With the quoted key as the nonce the answer is the key instead of its value. -/
theorem nonce_changes_answer :
    jsonSimpleReadValPos (report quoteStatus).text quoteStatus.text = .ok (34, 21) ∧
      (report quoteStatus).valuePos [member nonceKey quoteStatus] (member quoteStatus okStatus) = 58 :=
  ⟨by decide +kernel, by decide +kernel⟩

end Decentagram.RaOnchain.ReportJson
