import AwsOps.Foundation.Markup
import AwsOps.Foundation.Text

/-!
# Markup of a printed report

`_PdfMarkup` of the report exporters: formatting markup is rebuilt from the events of the parser of
the standard library. The output is kept as the list of its parts. `open_tags` lists the last opened
element first. The letters of `re.I` on a text are compared by `Text.foldCase`.
-/

namespace AwsOps.Diagnosis

open Markup (opening closing escape)
open Text (foldCase isSpace)

def pdfTags : List String :=
  ["a", "abbr", "b", "blockquote", "br", "caption", "code", "col", "colgroup", "dd", "del",
    "details", "div", "dl", "dt", "em", "figcaption", "figure", "h1", "h2", "h3", "h4", "h5", "h6",
    "hr", "i", "img", "kbd", "li", "mark", "ol", "p", "pre", "s", "samp", "small", "span",
    "strong", "style", "sub", "summary", "sup", "table", "tbody", "td", "tfoot", "th", "thead",
    "tr", "u", "ul", "var"]

def pdfVoidTags : List String :=
  ["br", "col", "hr", "img"]

def pdfAttributes : List String :=
  ["class", "id", "title", "lang", "dir", "style"]

/-- `_PDF_TAG_ATTRIBUTES.get(tag, set())`. -/
def pdfTagAttributes (tag : String) : List String :=
  match tag with
  | "a" => ["href", "name"]
  | "img" => ["src", "alt", "width", "height"]
  | "col" => ["span", "width"]
  | "colgroup" => ["span"]
  | "td" => ["colspan", "rowspan"]
  | "th" => ["colspan", "rowspan", "scope"]
  | "ol" => ["start", "reversed", "type"]
  | "li" => ["value"]
  | "details" => ["open"]
  | _ => []

/-- `allowed` of `handle_starttag`. -/
def allowed (tag : String) : List String :=
  pdfAttributes ++ pdfTagAttributes tag

/-- The alternatives of the pattern for `href`. -/
def hrefHeads : List String :=
  ["#", "http://", "https://", "mailto:"]

/-- What the alternatives of the pattern for `src` begin with. -/
def srcHeads : List String :=
  ["png", "jpeg", "gif", "webp", "avif", "bmp"].map fun raster =>
    "data:image/" ++ raster ++ ";base64,"

/-- The text begins with the word, letters compared by `fold`. -/
def begins (fold : Char → Char) (word text : List Char) : Bool :=
  (word.map fold).isPrefixOf (text.map fold)

/-- `re.match(r"^(?:#|https?://|mailto:)", value, re.I)`. -/
def hrefMatches (value : List Char) : Bool :=
  hrefHeads.any fun head => begins foldCase head.toList value

/-- `[A-Za-z0-9+/=\s]` under `re.I`. -/
def srcChar (c : Char) : Bool :=
  (foldCase c).isUpper || c.isDigit || c == '+' || c == '/' || c == '=' || isSpace c

/-- The `re.fullmatch` for `src`. -/
def srcMatches (value : List Char) : Bool :=
  srcHeads.any fun head =>
    let payload := value.drop head.length
    begins foldCase head.toList value && !payload.isEmpty && payload.all srcChar

/-- The attribute is not skipped by `handle_starttag`. -/
def keeps (tag : String) (attr : String × Option (List Char)) : Bool :=
  (allowed tag).contains attr.1 && (attr.1 != "href" || attr.2.any hrefMatches) &&
    (attr.1 != "src" || attr.2.any srcMatches)

/-- `kept`: the names and the values. -/
def kept (tag : String) (attrs : List (String × Option (List Char))) :
    List (String × List Char) :=
  (attrs.filter (keeps tag)).map fun attr => (attr.1, attr.2.getD [])

/-- The state of the renderer. -/
structure PdfMarkup where
  parts : List (List Char)
  openTags : List String
  openCounts : String → Int

def PdfMarkup.init : PdfMarkup :=
  { parts := [], openTags := [], openCounts := fun _ => 0 }

/-- `counts[tag] += change`. -/
def bump (counts : String → Int) (tag : String) (change : Int) : String → Int :=
  fun other => if other = tag then counts other + change else counts other

def PdfMarkup.handleStarttag (m : PdfMarkup) (tag : String)
    (attrs : List (String × Option (List Char))) : PdfMarkup :=
  if !pdfTags.contains tag then m
  else
    let parts := m.parts ++ [opening tag (kept tag attrs)]
    if pdfVoidTags.contains tag then { m with parts }
    else ⟨parts, tag :: m.openTags, bump m.openCounts tag 1⟩

/-- The loop of `handle_endtag`, over the open tags. -/
def closeUntil (tag : String) (parts : List (List Char)) (counts : String → Int) :
    List String → PdfMarkup
  | [] => ⟨parts, [], counts⟩
  | current :: rest =>
    if current = tag then ⟨parts ++ [closing current], rest, bump counts current (-1)⟩
    else closeUntil tag (parts ++ [closing current]) (bump counts current (-1)) rest

def PdfMarkup.handleEndtag (m : PdfMarkup) (tag : String) : PdfMarkup :=
  if m.openCounts tag = 0 then m else closeUntil tag m.parts m.openCounts m.openTags

/-- `data.replace("</", r"<\/")`. -/
def sealSlashes : List Char → List Char
  | '<' :: '/' :: rest => '<' :: Tokens.backslash :: '/' :: sealSlashes rest
  | c :: rest => c :: sealSlashes rest
  | [] => []

/-- `handle_data`, where `cdata` is the parser's `cdata_elem`. -/
def PdfMarkup.handleData (m : PdfMarkup) (cdata : Option String) (text : List Char) : PdfMarkup :=
  if cdata = some "style" ∧ m.openTags.head? = some "style" then
    { m with parts := m.parts ++ [sealSlashes text] }
  else { m with parts := m.parts ++ [escape false text] }

/-- What the parser reports. -/
inductive Event
  | start (tag : String) (attrs : List (String × Option (List Char)))
  | finish (tag : String)
  | data (cdata : Option String) (text : List Char)

def PdfMarkup.handle (m : PdfMarkup) : Event → PdfMarkup
  | .start tag attrs => m.handleStarttag tag attrs
  | .finish tag => m.handleEndtag tag
  | .data cdata text => m.handleData cdata text

/-- `feed` and `close`, on the events of a body. -/
def PdfMarkup.feed (body : List Event) : PdfMarkup :=
  body.foldl PdfMarkup.handle PdfMarkup.init

def PdfMarkup.render (body : List Event) : List Char :=
  let m := PdfMarkup.feed body
  m.parts.flatten ++ (m.openTags.map closing).flatten

end AwsOps.Diagnosis
