import Stackwright.Text.Line

/-!
# Streams and what can be read from them

Source text and program images come from streams of bytes: from a file, from a
text in memory, or from a device that may break off. Everything that reads by
lines looks at a stream through its `Feed`: the lines that can be had, and then
possibly the failure that ends them.

A failure of the device comes where the end would be, and the unfinished line
before it is lost. A line whose bytes are not UTF-8 is a failure too, after the
lines before it.
-/

namespace Stackwright

/-- The failures of files and devices. -/
inductive IoError where
  | notFound
  | notADirectory
  | isADirectory
  | noSpace
  | invalidUtf8
  /-- a failure with a wording of its own -/
  | other (text : String)
  deriving DecidableEq, Repr

/-- The wording of a failure. -/
def IoError.message : IoError → String
  | .notFound => "No such file or directory (os error 2)"
  | .notADirectory => "Not a directory (os error 20)"
  | .isADirectory => "Is a directory (os error 21)"
  | .noSpace => "No space left on device (os error 28)"
  | .invalidUtf8 => "stream did not contain valid UTF-8"
  | .other text => text

/-- Bytes to read, and the failure that comes after them, if any. -/
structure Stream where
  /-- the bytes that can be read -/
  bytes : ByteArray
  /-- what happens where the end would be -/
  failure : Option IoError

/-- What a reader of lines gets from a stream. -/
structure Feed where
  /-- the lines, in order -/
  lines : List String
  /-- the failure that ends them -/
  failure : Option IoError
  deriving DecidableEq, Repr

namespace Feed

/-- What a reader of lines gets when it asks for one after the other. -/
def answers (feed : Feed) : List (Except IoError String) :=
  feed.lines.map .ok ++ feed.failure.toList.map .error

/-- The lines of a text; nothing fails. -/
def ofText (text : String) : Feed := ⟨Text.lines text, none⟩

/-- Decode lines given as bytes, up to the first that cannot be decoded; the
given failure follows if all can. -/
def decode (failure : Option IoError) : List (List UInt8) → Feed
  | [] => ⟨[], failure⟩
  | l :: ls =>
    match String.fromUTF8? ⟨l.toArray⟩ with
    | none => ⟨[], some .invalidUtf8⟩
    | some line =>
      let rest := decode failure ls
      ⟨line :: rest.lines, rest.failure⟩

end Feed

namespace Stream

/-- A text as a stream. -/
def ofText (text : String) : Stream := ⟨text.toUTF8, none⟩

/-- The lines of a stream. Bytes that are text as a whole are split as text; others
are split as bytes and decoded line by line. -/
def feed (s : Stream) : Feed :=
  match String.fromUTF8? s.bytes, s.failure with
  | some text, none => Feed.ofText text
  | some text, some e => ⟨(Text.closedLines text.toList).map String.ofList, some e⟩
  | none, failure =>
    let (closed, last) := Text.breakAt 10 s.bytes.toList
    let complete := closed.map (Text.dropLastIf 13)
    match failure with
    | some e => Feed.decode (some e) complete
    | none => Feed.decode none (complete ++ if last.isEmpty then [] else [last])

/-- The whole stream as one text. A failure of the device is met before the text
is looked at. -/
def text (s : Stream) : Except IoError String :=
  match s.failure with
  | some e => .error e
  | none =>
    match String.fromUTF8? s.bytes with
    | some text => .ok text
    | none => .error .invalidUtf8

end Stream

end Stackwright
