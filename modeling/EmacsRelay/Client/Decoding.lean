import EmacsRelay.Client.Recovery
import EmacsRelay.Client.Run
import EmacsRelay.Lib.LineEnds
import EmacsRelay.Server.Write

set_option autoImplicit false

/- Visiting a file, `lisp/relay-file-handler.el`, with the editor's coding system `utf-8`: when the
unedited text encodes to the bytes that were read. -/
namespace EmacsRelay

/-- `decode-coding-string` and `encode-coding-string` with `utf-8`, which leaves the type of line
ends undecided: decoding looks at all of them, encoding writes LF. -/
def Codec.utf8 : Codec where
  encode := encodeUtf8
  decode bytes := let text := decodeUtf8 bytes; Eol.decode (Eol.detect text) text

/-- An entry of the content cache. -/
structure CachedBytes where
  bytes : Bytes
  revision : Option Token

/-- What the server answers a `read`. -/
inductive VisitReply where
  | ok (bytes : Bytes) (revision : Token)
  | failed (message : String)

/-- A buffer into which a file is inserted, with its text before and after point. -/
structure FileBuffer where
  before : Text
  after : Text
  fileName : Option String
  modified : Bool
  base : Option Base
  pendingRead : Option (String × Bytes × Option Token)

namespace FileBuffer

def text (b : FileBuffer) : Text := b.before ++ b.after

/-- `relay-conflict--bytes`. -/
def localBytes (codec : Codec) (b : FileBuffer) : Bytes := codec.encode b.text

def erase (b : FileBuffer) : FileBuffer := { b with before := [], after := [] }

/-- `insert`. -/
def insertText (b : FileBuffer) (text : Text) : FileBuffer := { b with before := b.before ++ text }

end FileBuffer

/-- The message says that there is no such file, in letters of either case. -/
def saysMissing (message : String) : Bool :=
  (message.toList.map Char.toLower).tails.any fun rest =>
    "no such".toList.isPrefixOf rest || "not found".toList.isPrefixOf rest

/-- Bytes and revision to be inserted: from the cache if they may be, else from the reply. -/
def obtain (visit replace : Bool) (cached : Option CachedBytes) (reply : VisitReply) :
    Except String (Bytes × Option Token) :=
  match if replace then none else cached.filter fun entry => !visit || entry.revision.isSome with
  | some entry => .ok (entry.bytes, entry.revision)
  | none =>
      match reply with
      | .ok bytes revision => .ok (bytes, some revision)
      | .failed message =>
          if visit && !replace && saysMissing message then .ok ([], some .missing)
          else .error message

/-- `relay--h-insert-file-contents` of a whole file, which returns the length inserted. -/
def insertFileContents (codec : Codec) (b : FileBuffer) (fileName : String) (visit replace : Bool)
    (cached : Option CachedBytes) (reply : VisitReply) : Except String (FileBuffer × Nat) := do
  let (bytes, revision) ← obtain visit replace cached reply
  let cleared := if replace then b.erase else b
  let text := codec.decode bytes
  let inserted := cleared.insertText text
  if visit then
    pure ({ inserted with
      fileName := some fileName
      modified := false
      base := revision.map fun revision => ⟨some bytes, revision, .utf8⟩ }, text.length)
  else pure ({ inserted with pendingRead := some (fileName, bytes, revision) }, text.length)

/-- A text decoded and encoded again is the same exactly when its line ends are left alone. -/
theorem utf8_roundTrips_iff {bytes : Bytes} (valid : validUtf8 bytes = true) :
    Codec.utf8.RoundTrips bytes ↔ Eol.Settles (decodeUtf8 bytes) := by
  have whole := encodeUtf8_decodeUtf8 valid
  have unfolded : Codec.utf8.RoundTrips bytes ↔
      encodeUtf8 (Eol.decode (Eol.detect (decodeUtf8 bytes)) (decodeUtf8 bytes)) = bytes := Iff.rfl
  rw [unfolded, ← Eol.decode_detect_iff]
  constructor
  · intro same
    exact encodeUtf8_inj.mp (same.trans whole.symm)
  · intro same
    rw [same, whole]

/-- The bytes and revision that a visit inserts were read from the server, now or before. -/
inductive Supplies (visit replace : Bool) (bytes : Bytes) (revision : Token) :
    Option CachedBytes → VisitReply → Prop where
  | cached (reply : VisitReply) (fresh : replace = false) :
      Supplies visit replace bytes revision (some ⟨bytes, some revision⟩) reply
  | read (cached : Option CachedBytes)
      (unusable : ∀ entry, cached = some entry → replace = true ∨ entry.revision = none) :
      Supplies visit replace bytes revision cached (.ok bytes revision)

theorem obtain_of_supplies {replace : Bool} {bytes : Bytes} {revision : Token}
    {cached : Option CachedBytes} {reply : VisitReply}
    (supplies : Supplies true replace bytes revision cached reply) :
    obtain true replace cached reply = .ok (bytes, some revision) := by
  cases supplies with
  | cached reply fresh => simp [obtain, fresh, Option.filter]
  | read cached unusable =>
      cases cached with
      | none => cases replace <;> rfl
      | some entry =>
          rcases unusable entry rfl with replaced | stale
          · simp [obtain, replaced]
          · simp [obtain, stale, Option.filter]

/-- An unedited buffer's LOCAL equals BASE, which is what was read, exactly when the text that was
read has an LF that no CR precedes, or no CR. -/
theorem visit_keeps_bytes_iff {b : FileBuffer} {replace : Bool} {bytes : Bytes} {revision : Token}
    {cached : Option CachedBytes} {reply : VisitReply} (fileName : String)
    (valid : validUtf8 bytes = true) (empty : replace = true ∨ b.text = [])
    (supplies : Supplies true replace bytes revision cached reply) :
    ∃ b' length, insertFileContents .utf8 b fileName true replace cached reply = .ok (b', length) ∧
      b'.base = some ⟨some bytes, revision, .utf8⟩ ∧
      (b'.localBytes .utf8 = bytes ↔ Eol.Settles (decodeUtf8 bytes)) := by
  let cleared := if replace then b.erase else b
  have nothing : cleared.before = [] ∧ cleared.after = [] := by
    rcases empty with replaced | nothing
    · simp [cleared, replaced, FileBuffer.erase]
    · have both := List.append_eq_nil_iff.mp nothing
      cases replace with
      | true => exact ⟨rfl, rfl⟩
      | false => exact both
  let visited : FileBuffer :=
    { cleared.insertText (Codec.utf8.decode bytes) with
      fileName := some fileName
      modified := false
      base := some ⟨some bytes, revision, .utf8⟩ }
  refine ⟨visited, (Codec.utf8.decode bytes).length, ?_, rfl, ?_⟩
  · unfold insertFileContents
    rw [obtain_of_supplies supplies]
    rfl
  · rw [← utf8_roundTrips_iff valid]
    have text : (cleared.insertText (Codec.utf8.decode bytes)).text = Codec.utf8.decode bytes := by
      simp [FileBuffer.text, FileBuffer.insertText, nothing]
    show Codec.utf8.encode (cleared.insertText (Codec.utf8.decode bytes)).text = bytes ↔ _
    rw [text]
    exact Iff.rfl

/-- A buffer that has just been made for a file. -/
def emptyBuffer : FileBuffer := ⟨[], [], none, false, none, none⟩

/-- A file with both kinds of line ends, and a byte order mark. -/
def mixedFile : Bytes := [0xef, 0xbb, 0xbf, 97, 13, 10, 98, 10, 99]

theorem visit_keeps_bytes_mixed :
    ∃ b' length, insertFileContents .utf8 emptyBuffer "/relay:host:/f" true false none
        (.ok mixedFile (sampleToken 1)) = .ok (b', length) ∧
      b'.base = some ⟨some mixedFile, sampleToken 1, .utf8⟩ ∧ b'.localBytes .utf8 = mixedFile := by
  obtain ⟨b', length, visits, base, keeps⟩ :=
    visit_keeps_bytes_iff (b := emptyBuffer) "/relay:host:/f" (by decide : validUtf8 mixedFile = true)
      (.inr rfl) (.read none fun entry none => by cases none)
  exact ⟨b', length, visits, base, keeps.mpr (by decide)⟩

/-- A file whose only line end is CR and LF. -/
def dosFile : Bytes := [97, 13, 10]

/-- Its CR is lost. -/
theorem visit_loses_cr :
    validUtf8 dosFile = true ∧
      ∃ b' length, insertFileContents .utf8 emptyBuffer "/relay:host:/f" true false none
          (.ok dosFile (sampleToken 1)) = .ok (b', length) ∧
        b'.base = some ⟨some dosFile, sampleToken 1, .utf8⟩ ∧ b'.localBytes .utf8 = [97, 10] := by
  refine ⟨by decide, _, _, rfl, rfl, by decide⟩

end EmacsRelay
