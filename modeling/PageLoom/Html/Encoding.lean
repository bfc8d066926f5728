import PageLoom.Text.Blank
import PageLoom.Text.Case
import PageLoom.Text.Search

/-!
# Encoding — texts inside markup and addresses

    `escape` replaces the five characters that could end a text or an
    attribute value; what it writes reads the same to a browser and opens
    no element.

    `encodeQuery` writes any text as a query value: letters, digits and
    `- _ .` stand for themselves, a space becomes `+`, every other byte a
    percent code.  `cleanUrl` makes an address fit for an attribute: it
    refuses schemes that are not on the list and drops what no address
    holds.
-/

namespace PageLoom.Html

open Text

/-! ## Markup -/

/-- One character of escaped text. -/
def escapeChar (c : Char) : List Char :=
  if c == '&' then ['&', 'a', 'm', 'p', ';']
  else if c == '<' then ['&', 'l', 't', ';']
  else if c == '>' then ['&', 'g', 't', ';']
  else if c == '"' then ['&', 'q', 'u', 'o', 't', ';']
  else if c == '\'' then ['&', '#', '0', '3', '9', ';']
  else [c]

/-- **Escaping** of text and attribute values. -/
def escape (s : String) : String :=
  String.ofList (s.toList.flatMap escapeChar)

/-! ## Addresses -/

/-- A hexadecimal digit in upper case. -/
def upperHexDigit (n : Nat) : Char :=
  if n < 10 then Char.ofNat (48 + n) else Char.ofNat (55 + n)

/-- One byte of a query value. -/
def encodeByte (b : UInt8) : List Char :=
  let c := Char.ofNat b.toNat
  if c.isAlphanum || c == '-' || c == '_' || c == '.' then [c]
  else if c == ' ' then ['+']
  else ['%', upperHexDigit (b.toNat / 16), upperHexDigit (b.toNat % 16)]

/-- **Query encoding** of a text. -/
def encodeQuery (s : String) : String :=
  String.ofList ((s.toList.flatMap String.utf8EncodeChar).flatMap encodeByte)

/-- The schemes that an address may have. -/
def allowedSchemes : List String :=
  ["http", "https", "ftp", "ftps", "mailto", "news", "irc", "irc6", "ircs", "gopher", "nntp",
    "feed", "telnet", "mms", "rtsp", "sms", "svn", "tel", "fax", "xmpp", "webcal", "urn"]

/-- Characters of a scheme. -/
def isSchemeChar (c : Char) : Bool :=
  c.isAlphanum || c == '+' || c == '-' || c == '.'

/-- Whether an address starts with a scheme that is not allowed. -/
def hasForbiddenScheme (url : List Char) : Bool :=
  match cutAtChar ':' url with
  | some (scheme, _) =>
      !scheme.isEmpty && scheme.all isSchemeChar
        && !allowedSchemes.contains (String.ofList (lowerAscii scheme))
  | none => false

/-- The marks that an address may hold. -/
def urlMarks : List Char :=
  ['-', '~', '+', '_', '.', '?', '#', '=', '!', ';', ',', '/', ':', '%', '@', '$', '|', '*',
    '(', ')', '[', ']']

/-- One character of a cleaned address. -/
def cleanChar (c : Char) : List Char :=
  if c == ' ' then ['%', '2', '0']
  else if c == '&' then ['&', '#', '0', '3', '8', ';']
  else if c == '\'' then ['&', '#', '0', '3', '9', ';']
  else if c.isAlphanum || 0x80 ≤ c.toNat || urlMarks.contains c then [c]
  else []

/-- **Cleaning an address**; one with a forbidden scheme becomes empty. -/
def cleanUrl (s : String) : String :=
  let url := trim s.toList
  if hasForbiddenScheme url then "" else String.ofList (url.flatMap cleanChar)

end PageLoom.Html
