import Vbuff.Types.Clip

/-!
# The kind of a clip

`detectKind` reads the kind off the MIME types where they are telling and off the first plain
text otherwise.
-/

namespace Vbuff.Core

open Text Vbuff.Types

/-- The schemes of `is_url`. -/
def SCHEMES : List Chars :=
  ["http://".toList, "https://".toList, "ftp://".toList, "ftps://".toList, "file://".toList,
    "mailto:".toList, "ssh://".toList, "git://".toList]

/-- `is_url`: the whole string is a single URL. -/
def isUrl (s : Chars) : Bool :=
  let lower := s.map toAsciiLowercase
  (splitWhitespace s).length == 1 &&
    (SCHEMES.any (startsWith lower) || (startsWith lower "www.".toList && lower.contains '.'))

/-- `is_color_hex`: `#rgb`, `#rgba`, `#rrggbb` or `#rrggbbaa`. -/
def isColorHex : Chars → Bool
  | '#' :: rest => [3, 4, 6, 8].contains (utf8Len rest) && rest.all isAsciiHexdigit
  | _ => false

/-- The `strong_tokens` of `looks_like_code`. -/
def strongTokens : List Chars :=
  ["fn ".toList, "def ".toList, "class ".toList, "function ".toList, "import ".toList,
    "#include".toList, "public ".toList, "private ".toList, "const ".toList, "let ".toList,
    "var ".toList, "=> ".toList, "->".toList, "::".toList, "</".toList, "/>".toList]

/-- `looks_like_code`. -/
def looksLikeCode (s : Chars) : Bool :=
  let hasStrong := strongTokens.any (contains s)
  let symbolLines := (lines s).countP fun line =>
    (trimEnd line).getLast?.any fun c => ['\x7b', '\x7d', ';', ':'].contains c
  let indentedLines := (lines s).countP fun line =>
    startsWith line "    ".toList || startsWith line ['\t']
  hasStrong || (2 ≤ (lines s).length && (1 ≤ symbolLines || 1 ≤ indentedLines))

/-- `detect_text_kind`. -/
def detectTextKind (text : Chars) : ContentKind :=
  let trimmed := trim text
  if trimmed.isEmpty then .Text
  else if isUrl trimmed then .Url
  else if isColorHex trimmed then .Color
  else if looksLikeCode trimmed then .Code
  else .Text

/-- A MIME type that lists files. -/
def listsFiles (mime : String) : Bool :=
  mime == "text/uri-list" || contains mime.toList "file-url".toList ||
    contains mime.toList "Filenames".toList || mime == "application/x-file-list"

def mimeContains (needle : String) (flavor : Flavor) : Bool :=
  contains flavor.mime.toList needle.toList

/-- The text of the first flavor of plain text. -/
def plainText (flavors : List Flavor) : Option String :=
  flavors.findSome? fun flavor =>
    if flavor.isText && !mimeContains "html" flavor && !mimeContains "rtf" flavor then
      flavor.asText
    else none

/-- The kind of the first flavor of rich text. -/
def richKind (flavors : List Flavor) : Option ContentKind :=
  flavors.findSome? fun flavor =>
    if mimeContains "html" flavor then some .Html
    else if mimeContains "rtf" flavor then some .Rtf
    else none

/-- `detect_kind`. -/
def detectKind (flavors : List Flavor) : ContentKind :=
  if flavors.any Flavor.isImage then .Image
  else if flavors.any fun flavor => listsFiles flavor.mime then .File
  else
    match plainText flavors with
    | some text => detectTextKind text.toList
    | none => (richKind flavors).getD .Other

example : detectKind [Flavor.inline "text/plain" (ByteString.asBytes "https://x.com"),
    Flavor.inline "image/png" [0x89, 0x50]] = .Image := by decide +kernel

example : detectTextKind "let x = 5;\nlet y = 6;".toList = .Code := by decide +kernel

end Vbuff.Core
