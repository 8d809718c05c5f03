import StaticSite.Bytes.Utf8
import StaticSite.Markup.Node
import StaticSite.Text.Blank
import StaticSite.Text.Search
import StaticSite.Text.Word
import StaticSite.Value.Text

/-!
# Listings

The language of a listing is named by its props or follows from the file name. A listing in plain
text is set with or without line numbers; the lines of any other language stay as they are.
-/

namespace StaticSite.Listing

/-- Languages by the extension of a file name. -/
def extensionLanguages : List (String × String) :=
  [("py", "python"), ("c", "c"), ("h", "c"), ("cpp", "cpp"), ("hpp", "cpp"), ("cxx", "cpp"),
   ("js", "javascript"), ("ts", "typescript"), ("java", "java"), ("rs", "rust"), ("go", "go"),
   ("sh", "bash"), ("md", "markdown"), ("html", "html"), ("css", "css"), ("json", "json")]

/-- The last name of a path; empty segments and single points name nothing. -/
def fileName (path : List Char) : List Char :=
  let segments := (Text.splitOnChar '/' path).filter fun s => !s.isEmpty && s != ['.']
  segments.getLast?.getD []

/-- What follows the last point of a name, unless the point is its first or last character. -/
def nameExtension (name : List Char) : List Char :=
  let (reversed, rest) := name.reverse.span (· != '.')
  match reversed, rest with
  | [], _ => []
  | _, [] => []
  | _, [_] => []
  | reversed, _ => reversed.reverse

/-- The text of a prop; nothing where it is absent or empty. -/
def propText (heap : Heap) (props : Entries) (key : String) : String :=
  let value := props.get key
  if heap.isTruthy value then value.text heap else ""

/-- The language of a listing. -/
def language (heap : Heap) (props : Entries) : String :=
  let named := Text.trimString (propText heap props "language")
  if named ≠ "" then named
  else
    let ext := nameExtension (fileName (propText heap props "filename").toList)
    (extensionLanguages.lookup (String.ofList ext)).getD "text"

def escapeChar (c : Char) : List Char :=
  if c = '&' then "&amp;".toList
  else if c = '<' then "&lt;".toList
  else if c = '>' then "&gt;".toList
  else if c = '"' then "&quot;".toList
  else if c.toNat = 39 then "&#39;".toList
  else [c]

/-- The code that is shown: without a byte order mark, without blanks at the ends, and one line
end at the end. -/
def shownCode (code : List Char) : List Char :=
  let code := if code.head? = some '\ufeff' then code.drop 1 else code
  Text.trim (Utf8.unifyLines code) ++ ['\n']

/-- The numbers of the lines, each filled with blanks to the width of the last one. -/
def lineNumbers (count : Nat) : List Char :=
  let width := (Nat.toDigits 10 count).length
  let number (n : Nat) : List Char :=
    "<span class=\"normal\">".toList ++ Text.padLeft ' ' width (Nat.toDigits 10 (n + 1)) ++
      "</span>".toList
  Text.join ['\n'] ((List.range count).map number)

def frame : String := "<div class=\"codehilite\">"

def table : String :=
  "<table class=\"codehilitetable\"><tr><td class=\"linenos\"><div class=\"linenodiv\"><pre>"

/-- A listing in plain text. -/
def plain (code : String) (numbered : Bool) : String :=
  let shown := shownCode code.toList
  let body := "<pre><span></span>" ++ String.ofList (shown.flatMap escapeChar) ++ "</pre>"
  if numbered then
    frame ++ table ++ String.ofList (lineNumbers (shown.count '\n')) ++
      "</pre></div></td><td class=\"code\"><div>" ++ body ++ "</div></td></tr></table></div>\n"
  else frame ++ body ++ "</div>\n"

/-- The markup of a listing in a language. -/
def markup (code language : String) (numbered : Bool) : Markup.Node :=
  if Text.lowerString language = "text" then .ready (plain code numbered)
  else .element "pre" [] [.element "code" [] [.text code]]

end StaticSite.Listing
