import Librarian.Foundation.Http
import Librarian.Health

/-! # The probe over HTTP

The endpoint reads once and answers with a complete message. How the bytes behind the path go on,
or where they were cut, makes no difference.
-/
namespace Librarian.Health
open Foundation Utf8

/-- The bytes sent back when the connection holds `received`. One read takes at most 1024. -/
def respond (thresholds : Thresholds) (heartbeat : Heartbeat) (now : ℤ) (databaseReachable : Bool)
    (received : List UInt8) : List UInt8 :=
  encode (handleConnection thresholds heartbeat now databaseReachable
    (.ofList (decodeLossy (received.take 1024)))).toList

/-- The message that carries a status and a text. -/
def message (answer : String × String) : Http.Message where
  start := ("HTTP/1.1 " ++ answer.1).toList
  fields :=
    [("Content-Type".toList, "text/plain".toList),
      ("Content-Length".toList, (toString answer.2.utf8ByteSize).toList),
      ("Connection".toList, "close".toList)]
  body := encode answer.2.toList

section Messages
variable {thresholds : Thresholds} {heartbeat : Heartbeat} {now : ℤ} {databaseReachable : Bool}
  {received : List UInt8} {answer : String × String}

theorem length_encode (s : String) : (encode s.toList).length = s.utf8ByteSize := by
  have hbytes : s.toByteArray = s.toList.utf8Encode := by
    rw [← String.toByteArray_ofList, String.ofList_toList]
  rw [← String.size_toByteArray, hbytes, List.utf8Encode, List.size_toByteArray, encode]

theorem respond_eq : respond thresholds heartbeat now databaseReachable received =
    (message (probe thresholds heartbeat now databaseReachable
      (.ofList (decodeLossy (received.take 1024))))).write := by
  rw [respond, handleConnection]
  generalize probe thresholds heartbeat now databaseReachable _ = answer
  -- the text in between is the fields with their line ends
  have hcrlf : Http.crlf = encode ['\r', '\n'] := by decide
  have hbefore : "\r\nContent-Type: text/plain\r\nContent-Length: ".toList =
      ['\r', '\n'] ++ ("Content-Type".toList ++ ':' :: ' ' :: "text/plain".toList) ++ ['\r', '\n'] ++
        ("Content-Length".toList ++ [':', ' ']) := by decide
  have hbehind : "\r\nConnection: close\r\n\r\n".toList =
      ['\r', '\n'] ++ ("Connection".toList ++ ':' :: ' ' :: "close".toList) ++ ['\r', '\n'] ++
        ['\r', '\n'] := by decide
  simp only [Http.Message.write, message, Http.fieldLine, hcrlf, List.flatMap_cons, List.flatMap_nil,
    List.append_nil, ← encode_append, String.toList_append, hbefore, hbehind]
  congr 1
  simp only [List.append_assoc, List.cons_append, List.nil_append]

/-- The numeral of the length is read as the length. -/
theorem wellFormed_message (h : '\r' ∉ answer.1.toList) : (message answer).WellFormed := by
  have hnumeral := Numeral.toDigits answer.2.utf8ByteSize
  have hdigits : (toString answer.2.utf8ByteSize).toList = Nat.toDigits 10 answer.2.utf8ByteSize :=
    Nat.toList_repr
  constructor
  · rw [message, String.toList_append, List.mem_append, not_or]
    exact ⟨by decide, h⟩
  · simp only [message, List.forall_mem_cons]
    decide
  · have hnot : '\r' ∉ Nat.toDigits 10 answer.2.utf8ByteSize := by
      intro hmem
      have hdigit := hnumeral.isDigit _ hmem
      simp at hdigit
    have hhead : (Nat.toDigits 10 answer.2.utf8ByteSize).head? ≠ some ' ' := by
      intro hhead
      have hdigit := hnumeral.isDigit _ (List.mem_of_mem_head? hhead)
      simp at hdigit
    simp only [message, List.forall_mem_cons, hdigits]
    exact ⟨by decide, ⟨hnot, hhead⟩, by decide, by simp⟩
  · have hfind : (message answer).fields.find? (fun field =>
        field.1.map Char.toLower = "content-length".toList) =
          some ("Content-Length".toList, Nat.toDigits 10 answer.2.utf8ByteSize) := by
      rw [message, hdigits]
      rfl
    have hall : (Nat.toDigits 10 answer.2.utf8ByteSize).all Char.isDigit = true :=
      List.all_eq_true.mpr hnumeral.isDigit
    rw [Http.contentLength, hfind, Option.bind_some, if_pos ⟨hnumeral.ne_nil, hall⟩,
      ← hnumeral.value, message, length_encode]

theorem status_evaluate (path : String) (databaseOk : Bool) :
    (evaluate path heartbeat databaseOk thresholds now).1 ∈ [ok, unavailable, "404 Not Found"] := by
  unfold evaluate
  split
  · split
    · simp
    · split <;> simp
  · split
    · split
      · split
        · simp
        · split <;> simp
      · simp
    · simp

/-- Whatever the bytes received, the answer is one complete message. -/
theorem read_respond : Http.read (respond thresholds heartbeat now databaseReachable received) =
    some (message (probe thresholds heartbeat now databaseReachable
      (.ofList (decodeLossy (received.take 1024)))), []) := by
  rw [respond_eq]
  generalize hprobe : probe thresholds heartbeat now databaseReachable _ = answer
  have hstatus : answer.1 ∈ [ok, unavailable, "404 Not Found"] := by
    rw [← hprobe]
    exact status_evaluate _ _
  have hwellFormed : (message answer).WellFormed := by
    apply wellFormed_message
    simp only [List.mem_cons, List.not_mem_nil, or_false] at hstatus
    rcases hstatus with h | h | h <;> rw [h] <;> decide
  have hread := Http.read_write hwellFormed []
  rwa [List.append_nil] at hread

end Messages

/-- A word of a request line. -/
def IsWord (s : List Char) : Prop := s ≠ [] ∧ ∀ c ∈ s, isWhitespace c = false

theorem requestPath_line {method path rest : List Char} {c : Char} (hmethod : IsWord method)
    (hpath : IsWord path) (hc : isWhitespace c = true) :
    requestPath (.ofList (method ++ ' ' :: (path ++ c :: rest))) = .ofList path := by
  have hword : ∀ s, IsWord s → ∀ x ∈ s, decide (x ≠ '\n') = true := by
    rintro s hs x hx
    rw [decide_eq_true_eq]
    rintro rfl
    have hblank := hs.2 _ hx
    simp [isWhitespace] at hblank
  -- the first line goes on with whitespace or ends
  have hline : ∃ blank, (method ++ ' ' :: (path ++ c :: rest)).takeWhile (· ≠ '\n') =
      method ++ ' ' :: (path ++ blank) ∧ (blank = [] ∨ ∃ tail, blank = c :: tail) := by
    rw [List.takeWhile_append_of_pos (hword method hmethod), List.takeWhile_cons_of_pos (by decide),
      List.takeWhile_append_of_pos (hword path hpath)]
    refine ⟨_, rfl, ?_⟩
    by_cases hend : c = '\n'
    · exact .inl (List.takeWhile_cons_of_neg (by simpa using hend))
    · exact .inr ⟨_, List.takeWhile_cons_of_pos (by simpa using hend)⟩
  rcases hline with ⟨blank, htake, hblank⟩
  have hsplit : splitWhitespace (method ++ ' ' :: (path ++ blank)) =
      method :: splitWhitespace (path ++ blank) := by
    rw [splitWhitespace, List.splitOnP_append_cons_of_forall_mem hmethod.2 _ (by decide),
      List.filter_cons_of_pos (by simpa using hmethod.1), splitWhitespace]
  have hfirst : ∃ words, splitWhitespace (path ++ blank) = path :: words := by
    rcases hblank with rfl | ⟨tail, rfl⟩
    · refine ⟨[], ?_⟩
      rw [List.append_nil, splitWhitespace, List.splitOnP_eq_singleton hpath.2,
        List.filter_cons_of_pos (by simpa using hpath.1), List.filter_nil]
    · refine ⟨splitWhitespace tail, ?_⟩
      rw [splitWhitespace, List.splitOnP_append_cons_of_forall_mem hpath.2 _ hc,
        List.filter_cons_of_pos (by simpa using hpath.1), splitWhitespace]
  rcases hfirst with ⟨words, hwords⟩
  rw [requestPath, String.toList_ofList, htake, hsplit, hwords]

/-- A request whose path arrives in time is answered for that path, and the answer is read as it
was meant. -/
theorem answers_path {method path : List Char} {c : Char} (hmethod : IsWord method)
    (hpath : IsWord path) (hc : isWhitespace c = true)
    (hlength : (encode (method ++ ' ' :: (path ++ [c]))).length ≤ 1024)
    (thresholds : Thresholds) (heartbeat : Heartbeat) (now : ℤ) (databaseReachable : Bool)
    (rest : List UInt8) :
    Http.read (respond thresholds heartbeat now databaseReachable
      (encode (method ++ ' ' :: (path ++ [c])) ++ rest)) =
    some (message (evaluate (.ofList path) heartbeat
      (.ofList path ≠ readyPath || databaseReachable) thresholds now), []) := by
  have hdecoded : ∃ behind, decodeLossy ((encode (method ++ ' ' :: (path ++ [c])) ++ rest).take 1024) =
      method ++ ' ' :: (path ++ c :: behind) := by
    refine ⟨decodeLossy (rest.take (1024 - (encode (method ++ ' ' :: (path ++ [c]))).length)), ?_⟩
    rw [List.take_append, List.take_of_length_le hlength, decodeLossy_append]
    simp
  rcases hdecoded with ⟨behind, hbehind⟩
  rw [read_respond, hbehind, probe, requestPath_line hmethod hpath hc]

/-- A probe of the kubelet, cut behind its path. -/
theorem answers_path_live : Http.read (respond .default ⟨1000⟩ 1100 false
      (encode ("GET".toList ++ ' ' :: ("/health/live".toList ++ [' '])) ++ [72, 84, 255])) =
    some (message (evaluate (.ofList "/health/live".toList) ⟨1000⟩
      (.ofList "/health/live".toList ≠ readyPath || false) .default 1100), []) :=
  answers_path ⟨by decide, by simp [isWhitespace]⟩ ⟨by decide, by simp [isWhitespace]⟩ (by decide)
    (by decide) _ _ _ _ _

end Librarian.Health
