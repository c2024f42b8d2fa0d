import Mathlib.Algebra.GroupWithZero.Nat
import Mathlib.Data.List.Basic
import UnyDesk.Proto.Message

/-!
# The output that a terminal keeps

What a terminal printed is kept by lines, the last of which may still lack its end, and the oldest are dropped when
there is too much. A client that comes back is sent the newest lines again.
-/

namespace UnyDesk

def maxOutputBufferSize : ℕ := 1024 * 1024

def maxBufferLines : ℕ := 10000

structure OutputBuffer where
  lines : List Bytes := []
  totalSize : ℕ := 0
  lastLineIncomplete : Bool := false

namespace OutputBuffer

def newline : UInt8 := 10

def pushLine (buffer : OutputBuffer) (line : Bytes) : OutputBuffer :=
  { buffer with lines := buffer.lines ++ [line], totalSize := buffer.totalSize + line.length }

/-- The pieces between newlines; the last one is a line only if it is not empty. -/
def pushLines (endsWithNewline : Bool) : OutputBuffer → List Bytes → OutputBuffer
  | buffer, [] => buffer
  | buffer, [line] =>
    if line = [] then buffer
    else if endsWithNewline then buffer.pushLine (line ++ [newline])
    else { buffer with lastLineIncomplete := true }.pushLine line
  | buffer, line :: lines => pushLines endsWithNewline (buffer.pushLine (line ++ [newline])) lines

/-- The loop that drops the oldest lines. -/
def trim : List Bytes → ℕ → Bool → OutputBuffer
  | [], totalSize, lastLineIncomplete =>
    if maxOutputBufferSize < totalSize then {} else { totalSize, lastLineIncomplete }
  | removed :: lines, totalSize, lastLineIncomplete =>
    if maxOutputBufferSize < totalSize || maxBufferLines < (removed :: lines).length then
      trim lines (if totalSize < removed.length then (lines.map List.length).sum else totalSize - removed.length)
        (!lines.isEmpty && lastLineIncomplete)
    else { lines := removed :: lines, totalSize, lastLineIncomplete }

section

variable (buffer : OutputBuffer)

/-- The end of `append`, for the data behind the end of an unfinished line. -/
def appendRemaining (remaining : Bytes) : OutputBuffer :=
  let buffer := pushLines (remaining.getLast? = some newline) buffer (remaining.splitOn newline)
  trim buffer.lines buffer.totalSize buffer.lastLineIncomplete

def append (data : Bytes) : OutputBuffer :=
  if data = [] then buffer
  else
    match buffer.lastLineIncomplete, buffer.lines.getLast? with
    | true, some lastLine =>
      let extend (added : Bytes) (lastLineIncomplete : Bool) : OutputBuffer :=
        { lines := buffer.lines.dropLast ++ [lastLine ++ added]
          totalSize := buffer.totalSize + added.length
          lastLineIncomplete }
      match data.findIdx? (· == newline) with
      | some newlinePos => (extend (data.take (newlinePos + 1)) false).appendRemaining (data.drop (newlinePos + 1))
      -- an unfinished line grows without being trimmed
      | none => extend data true
    | _, _ => buffer.appendRemaining data

/-- The chunks one after the other. -/
def appendAll (chunks : List Bytes) : OutputBuffer := chunks.foldl append buffer

@[simp] theorem appendAll_nil : buffer.appendAll [] = buffer := rfl

theorem appendAll_append (chunks chunks' : List Bytes) :
    buffer.appendAll (chunks ++ chunks') = (buffer.appendAll chunks).appendAll chunks' :=
  List.foldl_append

end

/-- At most so many bytes that continue a character are skipped. -/
def skipContinuation : ℕ → Bytes → Bytes
  | n + 1, b :: bytes => if b &&& 0xC0 = 0x80 then skipContinuation n bytes else b :: bytes
  | _, bytes => bytes

/-- The newest lines that fit, newest first, or the tail of the newest one if it alone is too long. -/
def recentChunks (maxBytes : ℕ) : ℕ → List Bytes → List Bytes
  | _, [] => []
  | size, line :: lines =>
    if maxBytes < size + line.length then
      if size = 0 ∧ maxBytes < line.length then
        let tail := skipContinuation 3 (line.drop (line.length - maxBytes))
        if tail = [] then [] else [tail]
      else []
    else line :: recentChunks maxBytes (size + line.length) lines

def getRecent (buffer : OutputBuffer) (maxBytes : ℕ) : Bytes :=
  if maxBytes = 0 then [] else (recentChunks maxBytes 0 buffer.lines.reverse).reverse.flatten

@[simp] theorem getRecent_empty (maxBytes : ℕ) : ({} : OutputBuffer).getRecent maxBytes = [] := by
  simp [getRecent, recentChunks]

end OutputBuffer

end UnyDesk
