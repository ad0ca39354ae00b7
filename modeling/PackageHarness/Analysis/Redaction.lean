/-
# PackageHarness.Analysis.Redaction — bounding and redacting untrusted text.

Every text that is stored, logged or sent to the coordinator passes `truncateUtf8` or
`redactAndBound`. Lengths are UTF-8 byte counts, as in the source. The five regular-expression
rewrites are executed by a third-party engine and enter as the function `redactPatterns` of
`Externals`; everything around them is spelled out here.
-/
import Mathlib.Algebra.Ring.Nat
import PackageHarness.Text.Chars

namespace PackageHarness

/-- Nanoseconds since the epoch. -/
abbrev Timestamp := Int

/-- A span of time in nanoseconds. -/
abbrev Duration := Nat

def Duration.ofMillis (ms : Nat) : Duration := ms * 1000000

def Duration.asMillis (d : Duration) : Nat := d / 1000000

@[simp] theorem Duration.asMillis_ofMillis (ms : Nat) : (Duration.ofMillis ms).asMillis = ms := by
  show ms * 1000000 / 1000000 = ms
  omega

/-- Whole milliseconds between two wall-clock readings, never negative. -/
def elapsedMs (start finish : Timestamp) : Nat := ((finish - start).tdiv 1000000).toNat

/-- Functions of third-party crates that the harness calls on its data. -/
structure Externals where
  /-- The compiled redaction patterns, applied one after the other. -/
  redactPatterns : String → String
  /-- RFC 3339 rendering of a timestamp. -/
  toRfc3339 : Timestamp → String

namespace Redaction

def REDACTED : String := "[REDACTED]"

def TRUNCATION_SUFFIX : String := "…[truncated]"

/-- Whether byte offset `b` lies between two characters of `s`. -/
def isCharBoundary (s : String) (b : Nat) : Bool := String.Pos.Raw.isValid s ⟨b⟩

/-- The backward search for a character boundary, starting at `b`. -/
def floorBoundary (s : String) : Nat → Nat
  | 0 => 0
  | b + 1 => if isCharBoundary s (b + 1) then b + 1 else floorBoundary s b

def truncateUtf8 (input : String) (maximumBytes : Nat) : String :=
  if input.utf8ByteSize ≤ maximumBytes then
    input
  else
    let suffix := if TRUNCATION_SUFFIX.utf8ByteSize ≤ maximumBytes then TRUNCATION_SUFFIX else ""
    let boundary := floorBoundary input (maximumBytes - suffix.utf8ByteSize)
    String.Pos.Raw.extract input 0 ⟨boundary⟩ ++ suffix

/-- The characters with the Unicode `White_Space` property. -/
def isWhitespace (c : Char) : Bool :=
  let n := c.toNat
  (0x9 ≤ n && n ≤ 0xD) || n == 0x20 || n == 0x85 || n == 0xA0 || n == 0x1680 ||
    (0x2000 ≤ n && n ≤ 0x200A) || n == 0x2028 || n == 0x2029 || n == 0x202F || n == 0x205F ||
    n == 0x3000

theorem not_isWhitespace_of_isAlphanum {c : Char} (h : c.isAlphanum = true) :
    isWhitespace c = false := by
  have hrange := Text.isAlphanum_iff.mp h
  simp only [isWhitespace, Bool.or_eq_false_iff, Bool.and_eq_false_iff, decide_eq_false_iff_not,
    beq_eq_false_iff_ne]
  omega

/-- Pieces that each end with the whitespace character that closes them. -/
def splitInclusive : List Char → List (List Char)
  | [] => []
  | c :: cs =>
      if isWhitespace c then
        [c] :: splitInclusive cs
      else
        match splitInclusive cs with
        | [] => [[c]]
        | part :: parts => (c :: part) :: parts

def looksSecret (token : List Char) : Bool :=
  48 ≤ (token.map Char.utf8Size).sum &&
    token.all (fun c => c.isAlphanum || "+/=_-.".toList.contains c) &&
    token.any Char.isDigit &&
    token.any Char.isAlpha

def redactLongTokens (input : String) : String :=
  String.ofList <| (splitInclusive input.toList).flatMap fun part =>
    let suffix := (part.reverse.takeWhile isWhitespace).reverse
    let token := part.take (part.length - suffix.length)
    if looksSecret token then REDACTED.toList ++ suffix else part

end Redaction

open Redaction

def redactAndBound (ext : Externals) (input : String) (maximumBytes : Nat) : String :=
  truncateUtf8 (redactLongTokens (ext.redactPatterns input)) maximumBytes

/-- Redacts an untrusted value and makes it safe for one-line text logs. -/
def redactAndBoundSingleLine (ext : Externals) (input : String) (maximumBytes : Nat) : String :=
  let redacted := redactAndBound ext input (maximumBytes * 2)
  let words := (redacted.toList.splitOnP isWhitespace).filter fun word => !word.isEmpty
  truncateUtf8 (" ".intercalate (words.map String.ofList)) maximumBytes

end PackageHarness
