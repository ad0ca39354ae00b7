/-
# PackageHarness.Analysis.Patterns — the redaction patterns as the regular expressions they are.

Each of the five patterns with its replacement, read by leftmost-first backtracking, and their
application one after the other. Patterns that ignore case compare by simple case folding, which
takes two characters outside ASCII for letters of it. Which characters are word characters is
Unicode data and enters as a function.
-/
import PackageHarness.Analysis.Redaction
import PackageHarness.Text.Seams

namespace PackageHarness.Redaction

open Text Text.Regex

/-! ## Characters -/

/-- The lower-case letter of a letter: the long s and the Kelvin sign fold to ASCII letters. -/
def fold (c : Char) : Char :=
  if c.toNat = 0x17F then 's' else if c.toNat = 0x212A then 'k' else c.toLower

/-- Whether a character is this lower-case letter in either case, or this other character. -/
def sameLetter (c d : Char) : Bool := fold d == c

def exactly (c d : Char) : Bool := d == c

def notWhitespace (c : Char) : Bool := !isWhitespace c

/-- `[A-Za-z0-9._~+/=-]`, with case ignored. -/
def isTokenChar (c : Char) : Bool := (fold c).isAlphanum || "._~+/=-".toList.contains c

/-- `[^\r\n:=]` -/
def isKeyChar (c : Char) : Bool := !(c == '\r' || c == '\n' || c == ':' || c == '=')

/-- `[:=]` -/
def isSeparator (c : Char) : Bool := c == ':' || c == '='

def notNewline (c : Char) : Bool := c != '\n'

def notDash (c : Char) : Bool := c != '-'

/-- `[^/@\s:]` -/
def isUserChar (c : Char) : Bool := !(c == '/' || c == '@' || isWhitespace c || c == ':')

/-- `[^/@\s]` -/
def isPasswordChar (c : Char) : Bool := !(c == '/' || c == '@' || isWhitespace c)

def lineStart (prev _next : Option Char) : Bool := prev == none || prev == some '\n'

def lineEnd (_prev next : Option Char) : Bool := next == none || next == some '\n'

variable (isWord : Char → Bool)

def wordBoundary (prev next : Option Char) : Bool := prev.any isWord != next.any isWord

/-! ## Patterns -/

/-- `(?i)(authorization\s*:\s*)(?:bearer\s+)?[^\s]+` -/
def authorizationPattern : Rewrite where
  group := seq (spell sameLetter "authorization".toList)
    (seq (many isWhitespace) (seq (one (exactly ':')) (many isWhitespace)))
  rest := seq (alt (seq (spell sameLetter "bearer".toList) (plus isWhitespace)) empty)
    (plus notWhitespace)
  replacement := REDACTED.toList
  proper := rfl

/-- `(?i)\bbearer\s+[A-Za-z0-9._~+/=-]+` -/
def bearerPattern : Rewrite where
  group := empty
  rest := seq (look (wordBoundary isWord))
    (seq (spell sameLetter "bearer".toList) (seq (plus isWhitespace) (plus isTokenChar)))
  replacement := "Bearer [REDACTED]".toList
  proper := rfl

/-- `TOKEN|SECRET|PASSWORD|PRIVATE_KEY|API_KEY`, with case ignored. -/
def keyWord : Regex :=
  alt (spell sameLetter "token".toList)
    (alt (spell sameLetter "secret".toList)
      (alt (spell sameLetter "password".toList)
        (alt (spell sameLetter "private_key".toList) (spell sameLetter "api_key".toList))))

/-- `(?im)^([^\r\n:=]*(?:TOKEN|SECRET|PASSWORD|PRIVATE_KEY|API_KEY)[^\r\n:=]*\s*[:=]\s*).*$` -/
def keyValuePattern : Rewrite where
  group := seq (look lineStart) (seq (many isKeyChar) (seq keyWord (seq (many isKeyChar)
    (seq (many isWhitespace) (seq (one isSeparator) (many isWhitespace))))))
  rest := seq (many notNewline) (look lineEnd)
  replacement := REDACTED.toList
  proper := rfl

/-- `(?i)(https?://)[^/@\s:]+:[^/@\s]+@` -/
def urlPattern : Rewrite where
  group := seq (spell sameLetter "http".toList)
    (seq (alt (spell sameLetter "s".toList) empty) (spell sameLetter "://".toList))
  rest := seq (plus isUserChar)
    (seq (one (exactly ':')) (seq (plus isPasswordChar) (one (exactly '@'))))
  replacement := "[REDACTED]@".toList
  proper := rfl

/-- `(?s)-----BEGIN [^-]*PRIVATE KEY-----.*?-----END [^-]*PRIVATE KEY-----` -/
def privateKeyPattern : Rewrite where
  group := empty
  rest := seq (spell exactly "-----BEGIN ".toList) (seq (many notDash)
    (seq (spell exactly "PRIVATE KEY-----".toList) (seq (manyLazy fun _ => true)
      (seq (spell exactly "-----END ".toList) (seq (many notDash)
        (spell exactly "PRIVATE KEY-----".toList))))))
  replacement := "[REDACTED PRIVATE KEY]".toList
  proper := rfl

def REDACTION_PATTERNS : List Rewrite :=
  [authorizationPattern, bearerPattern isWord, keyValuePattern, urlPattern, privateKeyPattern]

/-- Every pattern is applied to what the patterns before it have made of the text. -/
def applyPatterns (input : String) : String :=
  String.ofList ((REDACTION_PATTERNS isWord).foldl (fun output w => w.replaceAll output)
    input.toList)

/-- The compiled patterns in the place of the engine that executes them. -/
def compiled (toRfc3339 : Timestamp → String) : Externals where
  redactPatterns := applyPatterns isWord
  toRfc3339 := toRfc3339

end PackageHarness.Redaction
