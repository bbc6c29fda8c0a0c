import Mathlib.Tactic
import Strata.Lib.Http
import Strata.Lib.RustInt
import Strata.Lib.RustStr
import Strata.Lib.RustVec

/-! The head of a loopback response, read off the socket before the stream is upgraded. The
terminator may lie across reads, and the read that completes it may hold bytes of the upgraded
stream, which are handed on as the leftover. -/

namespace Strata.Backend.ResponseHeads

open Utf8 (Text Bytes)
open RustVec (position)

def maxLoopbackHeaderBytes : Nat := 64 * 1024
def maxLineBytes : Nat := 8 * 1024

def crlf : Bytes := [0x0D, 0x0A]

inductive HeadError where
  | tooLarge | closed | noCrlf | statusTooLong | notUtf8 | missingStatus | notNumeric
  deriving DecidableEq, Repr

def parseStatusLine (head : Bytes) : Except HeadError Nat :=
  match position crlf head with
  | none => .error .noCrlf
  | some lineEnd =>
      if lineEnd > maxLineBytes then .error .statusTooLong
      else
        match Utf8.decode (head.take lineEnd) with
        | none => .error .notUtf8
        | some line =>
            match RustStr.splitOnce ' ' line with
            | none => .error .missingStatus
            | some (_, rest) =>
                match RustInt.parseUnsigned (2 ^ 16 - 1) (rest.takeWhile (· != ' ')) with
                | none => .error .notNumeric
                | some status => .ok status

def trimCr (line : Bytes) : Bytes := if line.getLast? = some 0x0D then line.dropLast else line

section

variable (http : Http)

def parseHeaderLine (line : Bytes) : Option (Text × Bytes) :=
  let line := trimCr line
  if 0x3A ∈ line then
    let value := (line.dropWhile (· != 0x3A)).drop 1
    (http.headerName (line.takeWhile (· != 0x3A))).bind fun name =>
      (http.fromBytes (value.dropWhile fun b => b == 0x20 || b == 9)).map fun value => (name, value)
  else none

def parseResponseHeaders (head : Bytes) : HeaderMap :=
  match position crlf head with
  | none => []
  | some lineEnd =>
      (((head.drop (lineEnd + 2)).splitOn 0x0A).filterMap (parseHeaderLine http)).foldl
        (fun headers line => http.append headers line.1 line.2) []

def findCrlfcrlf (buf : Bytes) : Option Nat := position (crlf ++ crlf) buf

/-- What is returned once the terminator lies at `idx`. -/
def parseHead (acc : Bytes) (idx : Nat) : Except HeadError (Nat × HeaderMap × Bytes) :=
  (parseStatusLine (acc.take (idx + 2))).map fun status =>
    (status, parseResponseHeaders http (acc.take (idx + 2)), acc.drop (idx + 4))

/-- The loop over the socket's reads, with the reads it leaves behind. A read of nothing, or
the end of the list, is the end of the stream. -/
def readHeadFrom (acc : Bytes) (reads : List Bytes) :
    Except HeadError (Nat × HeaderMap × Bytes) × List Bytes :=
  if acc.length > maxLoopbackHeaderBytes then (.error .tooLarge, reads)
  else
    match reads with
    | [] => (.error .closed, [])
    | chunk :: rest =>
        if chunk = [] then (.error .closed, rest)
        else
          match findCrlfcrlf (acc ++ chunk) with
          | some idx => (parseHead http (acc ++ chunk) idx, rest)
          | none => readHeadFrom (acc ++ chunk) rest

def readHttp1ResponseHead (reads : List Bytes) :
    Except HeadError (Nat × HeaderMap × Bytes) × List Bytes :=
  readHeadFrom http [] reads

/-- The head of `stream`, whose terminator lies at `idx`, and the bytes behind it: `leftover`
handed on and `unread` still in the socket. -/
def ReadsHead (stream : Bytes) (idx : Nat)
    (result : Except HeadError (Nat × HeaderMap × Bytes) × List Bytes) : Prop :=
  ∃ leftover, leftover ++ result.2.flatten = stream.drop (idx + 4) ∧
    result.1 = (parseStatusLine (stream.take (idx + 2))).map fun status =>
      (status, parseResponseHeaders http (stream.take (idx + 2)), leftover)

end

variable {http : Http}

theorem parseHead_of_front {front back stream : Bytes} (shape : stream = front ++ back) {idx : Nat}
    (inside : idx + 4 ≤ front.length) :
    parseHead http front idx = (parseStatusLine (stream.take (idx + 2))).map fun status =>
      (status, parseResponseHeaders http (stream.take (idx + 2)), front.drop (idx + 4)) := by
  rw [parseHead, shape, List.take_append_of_le_length (by omega)]

theorem findCrlfcrlf_front {front back stream : Bytes} (shape : front ++ back = stream)
    (idx : Nat) :
    findCrlfcrlf front = some idx ↔ findCrlfcrlf stream = some idx ∧ idx + 4 ≤ front.length := by
  rw [← shape]
  exact RustVec.position_append_iff back idx

theorem readHeadFrom_reads {stream : Bytes} {idx : Nat} (found : findCrlfcrlf stream = some idx)
    (limit : idx + 4 ≤ maxLoopbackHeaderBytes) (reads : List Bytes) :
    ∀ acc : Bytes, acc.length < idx + 4 → acc ++ reads.flatten = stream →
      (∀ chunk ∈ reads, chunk ≠ []) → ReadsHead http stream idx (readHeadFrom http acc reads) := by
  induction reads with
  | nil =>
      intro acc short whole _
      rw [List.flatten_nil] at whole
      have inside := ((findCrlfcrlf_front (List.append_nil stream) idx).mp found).2
      rw [List.append_nil] at whole
      rw [whole] at short
      omega
  | cons chunk rest ih =>
      intro acc short whole filled
      rw [List.forall_mem_cons] at filled
      rw [List.flatten_cons, ← List.append_assoc] at whole
      rw [readHeadFrom, if_neg (by omega)]
      simp only [if_neg filled.1]
      cases here : findCrlfcrlf (acc ++ chunk) with
      | some idx' =>
          obtain ⟨same, inside⟩ := (findCrlfcrlf_front whole idx').mp here
          rw [found] at same
          cases same
          refine ⟨(acc ++ chunk).drop (idx + 4), ?_, parseHead_of_front whole.symm inside⟩
          rw [← whole, List.drop_append_of_le_length inside]
      | none =>
          apply ih (acc ++ chunk) _ whole filled.2
          by_contra long
          have again := (findCrlfcrlf_front whole idx).mpr ⟨found, by omega⟩
          rw [here] at again
          cases again

/-- However the stream is split into reads, its head is the one of the bytes before the
terminator, and no byte behind it is lost or handed on twice. -/
theorem readHttp1ResponseHead_split (http : Http) (stream : Bytes) (idx : Nat)
    (found : findCrlfcrlf stream = some idx) (limit : idx + 4 ≤ maxLoopbackHeaderBytes)
    (reads : List Bytes) (whole : reads.flatten = stream) (filled : ∀ chunk ∈ reads, chunk ≠ []) :
    ReadsHead http stream idx (readHttp1ResponseHead http reads) :=
  readHeadFrom_reads found limit reads [] (by simp) whole filled

def upgradeResponse : Bytes :=
  Utf8.encode "HTTP/1.1 101 Switching Protocols\r\nupgrade: websocket\r\n\r\nhi".toList

/-- The terminator lies across two reads, and the second one brings a byte of the stream. -/
theorem upgradeResponse_split :
    findCrlfcrlf upgradeResponse = some 52 ∧
    ReadsHead .standard upgradeResponse 52
      (readHttp1ResponseHead .standard [upgradeResponse.take 54, (upgradeResponse.drop 54).take 3,
        upgradeResponse.drop 57]) ∧
    readHttp1ResponseHead .standard [upgradeResponse.take 54, (upgradeResponse.drop 54).take 3,
        upgradeResponse.drop 57] =
      (.ok (101, [("upgrade".toList, Utf8.encode "websocket".toList)],
        Utf8.encode "h".toList), [Utf8.encode "i".toList]) := by
  have found : findCrlfcrlf upgradeResponse = some 52 := by decide +kernel
  refine ⟨found, readHttp1ResponseHead_split _ _ 52 found (by decide) _ (by decide +kernel) ?_, ?_⟩
  · simp only [List.forall_mem_cons]
    exact ⟨by decide +kernel, by decide +kernel, by decide +kernel, by simp⟩
  · rfl

end Strata.Backend.ResponseHeads
