import ScratchDb.Catalog.RoundTrip

/-!
# Requests and responses

Model of how `src/server.cpp` reads a request from a connection and writes a
response to it; characters stand for bytes. The network may cut what is sent
into any pieces: the request that is read depends only on the bytes that
arrive, and of a response that is cut short no reader takes the rest for the
whole.
-/

namespace ScratchDb

namespace HttpMessages

open DelimitedText

/-! ## Receiving -/

structure HttpRequest where
  method : List Char
  path : List Char
  body : List Char
deriving DecidableEq, Repr

/-- What one `recv` into the buffer of 4096 bytes brings. -/
def Chunk : Type := { bytes : List Char // 0 < bytes.length ∧ bytes.length ≤ 4096 }

inductive Received where
  | bytes (chunk : Chunk)
  /-- `EINTR` -/
  | interrupted
  | failed
  /-- the other side has closed the connection -/
  | closed

/-- `std::nullopt`, or an exception that leaves the thread and ends the server. -/
inductive Outcome where
  | request (r : HttpRequest)
  | rejected
  | terminated
deriving DecidableEq, Repr

def blankLine : List Char := ['\r', '\n', '\r', '\n']

/-- What is before the first blank line, and what follows it. -/
def cutHead : List Char → Option (List Char × List Char)
  | [] => none
  | c :: text =>
    if blankLine <+: c :: text then some ([], (c :: text).drop blankLine.length)
    else (cutHead text).map fun (head, rest) => (c :: head, rest)

/-- A line as `std::getline` gives it, without the carriage return at its end. -/
def stripped (line : List Char) : List Char :=
  if line.getLast? = some '\r' then line.dropLast else line

def lowerPrefix : List Char := "content-length:".toList

def lengthLoop : List (List Char) → Except ReadFailure (Option Nat)
  | [] => .ok none
  | line :: lines =>
    if ((stripped line).take lowerPrefix.length).map Char.toLower = lowerPrefix then
      (stoull ((stripped line).drop lowerPrefix.length)).map some
    else lengthLoop lines

def contentLengthFromHeaders (headers : List Char) : Except ReadFailure (Option Nat) :=
  lengthLoop (linesOf '\n' headers)

/-- The first loop of `read_request`. -/
def receiveHead : List Received → List Char → Option (List Char × List Received)
  | [], _ => none
  | .bytes chunk :: more, buffer =>
    let buffer := buffer ++ chunk.val
    if (cutHead buffer).isSome then some (buffer, more)
    else if buffer.length < 65536 then receiveHead more buffer
    else none
  | .interrupted :: more, buffer => receiveHead more buffer
  | .failed :: _, _ => none
  | .closed :: _, _ => none

/-- The second loop of `read_request`. -/
def receiveBody (expectedSize : Nat) : List Received → List Char → Option (List Char)
  | [], buffer => if buffer.length < expectedSize then none else some buffer
  | received :: more, buffer =>
    if buffer.length < expectedSize then
      match received with
      | .bytes chunk => receiveBody expectedSize more (buffer ++ chunk.val)
      | .interrupted => receiveBody expectedSize more buffer
      | .failed => none
      | .closed => none
    else some buffer

/-- The first two words of the headers. -/
def requestLine (headers : List Char) : Option (List Char × List Char) := do
  let (method, rest) ← readWord headers
  let (path, _) ← readWord rest
  some (method, path)

def makeRequest (headers body : List Char) : Outcome :=
  match requestLine headers with
  | none => .rejected
  | some (method, path) => .request { method, path, body }

/-- `read_request`. -/
def readRequest (received : List Received) : Outcome :=
  match receiveHead received [] with
  | none => .rejected
  | some (buffer, more) =>
    match cutHead buffer with
    | none => .rejected
    | some (headers, _) =>
      match contentLengthFromHeaders headers with
      | .error _ => .terminated
      | .ok contentLength =>
        let bodyStart := headers.length + 4
        let length := contentLength.getD 0
        match receiveBody ((bodyStart + length) % 2 ^ 64) more buffer with
        | none => .rejected
        | some buffer => makeRequest headers ((buffer.drop bodyStart).take length)

/-! ## The request in a stream of bytes -/

/-- The bytes that a connection delivers before it ends. -/
def arriving : List Received → List Char
  | [] => []
  | .bytes chunk :: more => chunk.val ++ arriving more
  | .interrupted :: more => arriving more
  | .failed :: _ => []
  | .closed :: _ => []

/-- The request that a stream of bytes begins with. -/
def requestIn (stream : List Char) : Outcome :=
  match cutHead stream with
  | none => .rejected
  | some (headers, rest) =>
    if 65536 < headers.length + 4 then .rejected
    else
      match contentLengthFromHeaders headers with
      | .error _ => .terminated
      | .ok contentLength =>
        if rest.length < contentLength.getD 0 then .rejected
        else makeRequest headers (rest.take (contentLength.getD 0))

/-- The headers end where the limit of 65536 bytes does not depend on how they arrive, and the
sizes do not wrap around. -/
structure Measured (stream : List Char) : Prop where
  head : ∀ headers rest, cutHead stream = some (headers, rest) →
    headers.length + 4 ≤ 65536 ∨ 65536 + 4096 ≤ headers.length + 4
  size : ∀ headers rest n, cutHead stream = some (headers, rest) →
    contentLengthFromHeaders headers = .ok (some n) → headers.length + 4 + n < 2 ^ 64

/-! ## The first blank line -/

section Cutting

variable {text more headers rest : List Char}

theorem cutHead_of_prefix (h : blankLine <+: text) :
    cutHead text = some ([], text.drop blankLine.length) := by
  cases text with
  | nil => exact absurd h (by decide)
  | cons c text => rw [cutHead, if_pos h]

theorem eq_of_cutHead (h : cutHead text = some (headers, rest)) :
    text = headers ++ (blankLine ++ rest) := by
  induction text generalizing headers with
  | nil => cases h
  | cons c text ih =>
    rw [cutHead] at h
    split at h
    · rename_i hblank
      cases h
      exact (List.prefix_iff_eq_append.mp hblank).symm
    · rcases Option.map_eq_some_iff.mp h with ⟨⟨front, back⟩, hcut, heq⟩
      cases heq
      rw [List.cons_append, ← ih hcut]

/-- More text behind it does not move the first blank line. -/
theorem cutHead_append (h : cutHead text = some (headers, rest)) (more : List Char) :
    cutHead (text ++ more) = some (headers, rest ++ more) := by
  induction text generalizing headers with
  | nil => cases h
  | cons c text ih =>
    have hlength := congrArg List.length (eq_of_cutHead h)
    rw [cutHead] at h
    rw [List.cons_append, cutHead, ← List.cons_append]
    split at h
    · rename_i hblank
      cases h
      rw [if_pos (hblank.trans (List.prefix_append _ more)),
        List.drop_append_of_le_length hblank.length_le]
    · rename_i hblank
      rcases Option.map_eq_some_iff.mp h with ⟨⟨front, back⟩, hcut, heq⟩
      cases heq
      rw [if_neg, ih hcut, Option.map_some]
      -- the text is long enough to hold a blank line in front
      intro hlead
      refine hblank (List.prefix_of_prefix_length_le hlead (List.prefix_append _ more) ?_)
      rw [hlength, List.length_append, List.length_append]
      omega

theorem length_lt_of_cutHead (hnone : cutHead text = none)
    (h : cutHead (text ++ more) = some (headers, rest)) : text.length < headers.length + 4 := by
  induction text generalizing headers with
  | nil => exact Nat.succ_pos _
  | cons c text ih =>
    rw [cutHead] at hnone
    rw [List.cons_append, cutHead, ← List.cons_append] at h
    split at hnone
    · cases hnone
    · rename_i hblank
      rw [Option.map_eq_none_iff] at hnone
      split at h
      · rename_i hlead
        cases h
        rw [List.length_cons]
        by_contra hlong
        refine hblank (List.prefix_of_prefix_length_le hlead (List.prefix_append _ more) ?_)
        rw [List.length_cons]
        show 4 ≤ _
        simp only [List.length_nil] at hlong
        omega
      · rcases Option.map_eq_some_iff.mp h with ⟨⟨front, back⟩, hcut, heq⟩
        cases heq
        have hshort := ih hnone hcut
        rw [List.length_cons, List.length_cons]
        omega

end Cutting

/-! ## What a request depends on -/

section Reading

variable {received more : List Received} {buffer headers rest : List Char}

/-- The buffer after the first loop, where the headers are in the stream. -/
theorem receiveHead_eq_some (hnone : cutHead buffer = none)
    (hcut : cutHead (buffer ++ arriving received) = some (headers, rest))
    (hhead : headers.length + 4 ≤ 65536) :
    ∃ back more, receiveHead received buffer = some (headers ++ (blankLine ++ back), more) ∧
      cutHead (headers ++ (blankLine ++ back)) = some (headers, back) ∧
        back ++ arriving more = rest := by
  induction received generalizing buffer with
  | nil =>
    rw [arriving, List.append_nil, hnone] at hcut
    cases hcut
  | cons r received ih =>
    cases r with
    | bytes chunk =>
      rw [arriving, ← List.append_assoc] at hcut
      rw [receiveHead]
      cases hnow : cutHead (buffer ++ chunk.val) with
      | some found =>
        rcases found with ⟨front, back⟩
        have happend := cutHead_append hnow (arriving received)
        rw [hcut] at happend
        cases happend
        have heq := eq_of_cutHead hnow
        refine ⟨back, received, ?_, heq ▸ hnow, rfl⟩
        rw [← heq]
        rfl
      | none =>
        have hshort := length_lt_of_cutHead hnow hcut
        simp only [Option.isSome_none, Bool.false_eq_true, if_false]
        rw [if_pos (by omega)]
        exact ih hnow hcut
    | interrupted => exact ih hnone hcut
    | failed =>
      rw [arriving, List.append_nil, hnone] at hcut
      cases hcut
    | closed =>
      rw [arriving, List.append_nil, hnone] at hcut
      cases hcut

/-- The first loop gives up where no headers arrive, or too many. -/
theorem receiveHead_eq_none (hbuffer : buffer.length < 65536)
    (hcut : ∀ headers rest, cutHead (buffer ++ arriving received) = some (headers, rest) →
      65536 + 4096 ≤ headers.length + 4) : receiveHead received buffer = none := by
  induction received generalizing buffer with
  | nil => rfl
  | cons r received ih =>
    cases r with
    | bytes chunk =>
      rw [arriving, ← List.append_assoc] at hcut
      rw [receiveHead]
      cases hnow : cutHead (buffer ++ chunk.val) with
      | some found =>
        rcases found with ⟨front, back⟩
        have hlong := hcut _ _ (cutHead_append hnow (arriving received))
        have hlength := congrArg List.length (eq_of_cutHead hnow)
        have hchunk := chunk.property.2
        rw [List.length_append, List.length_append, List.length_append] at hlength
        have hfour : blankLine.length = 4 := rfl
        omega
      | none =>
        simp only [Option.isSome_none, Bool.false_eq_true, if_false]
        split
        · rename_i hshort
          exact ih hshort hcut
        · rfl
    | interrupted => exact ih hbuffer hcut
    | failed => rfl
    | closed => rfl

/-- The second loop waits for as many bytes as it needs. -/
theorem receiveBody_eq (expectedSize : Nat) (received : List Received) (buffer : List Char) :
    (receiveBody expectedSize received buffer = none ∧
      (buffer ++ arriving received).length < expectedSize) ∨
    ∃ full back, receiveBody expectedSize received buffer = some full ∧
      expectedSize ≤ full.length ∧ full ++ back = buffer ++ arriving received := by
  induction received generalizing buffer with
  | nil =>
    rw [receiveBody, arriving, List.append_nil]
    split
    · rename_i hshort
      exact .inl ⟨rfl, hshort⟩
    · rename_i hlong
      exact .inr ⟨buffer, [], rfl, Nat.le_of_not_lt hlong, List.append_nil _⟩
  | cons r received ih =>
    rw [receiveBody.eq_def]
    dsimp only
    split
    · rename_i hshort
      cases r with
      | bytes chunk =>
        rw [arriving, ← List.append_assoc]
        exact ih _
      | interrupted => exact ih _
      | failed => exact .inl ⟨rfl, by rwa [arriving, List.append_nil]⟩
      | closed => exact .inl ⟨rfl, by rwa [arriving, List.append_nil]⟩
    · rename_i hlong
      exact .inr ⟨buffer, arriving (r :: received), rfl, Nat.le_of_not_lt hlong, rfl⟩

/-- The request that is read is the one that the bytes begin with, in whatever pieces they
arrive. -/
theorem readRequest_eq (received : List Received) (h : Measured (arriving received)) :
    readRequest received = requestIn (arriving received) := by
  rw [readRequest, requestIn]
  cases hcut : cutHead (arriving received) with
  | none =>
    rw [receiveHead_eq_none (by decide)]
    intro headers rest hcut'
    rw [List.nil_append, hcut] at hcut'
    cases hcut'
  | some found =>
    rcases found with ⟨headers, rest⟩
    rcases h.head headers rest hcut with hhead | hhead
    · rcases @receiveHead_eq_some received [] headers rest rfl hcut hhead with
        ⟨back, more, hreceive, hnow, hback⟩
      rw [hreceive]
      dsimp only
      rw [hnow, if_neg (by omega)]
      dsimp only
      cases hlength : contentLengthFromHeaders headers with
      | error e => rfl
      | ok contentLength =>
        dsimp only
        have hwrap : (headers.length + 4 + contentLength.getD 0) % 2 ^ 64 =
            headers.length + 4 + contentLength.getD 0 := by
          apply Nat.mod_eq_of_lt
          cases contentLength with
          | none =>
            rw [Option.getD_none]
            omega
          | some n => exact h.size headers rest n hcut hlength
        have hsize : (headers ++ (blankLine ++ back) ++ arriving more).length =
            headers.length + 4 + rest.length := by
          rw [List.append_assoc, List.append_assoc, hback, List.length_append, List.length_append]
          have hfour : blankLine.length = 4 := rfl
          omega
        rw [hwrap]
        rcases receiveBody_eq (headers.length + 4 + contentLength.getD 0) more
          (headers ++ (blankLine ++ back)) with ⟨hnone, hshort⟩ | ⟨full, behind, hfull, hlong, heq⟩
        · rw [hnone, if_pos (by omega)]
        · have hbody : full.drop (headers.length + 4) ++ behind = rest := by
            rw [← List.drop_append_of_le_length (by omega), heq, List.append_assoc,
              List.append_assoc, hback, ← List.append_assoc]
            exact List.drop_left' (by rw [List.length_append]; rfl)
          have hlength' := congrArg List.length heq
          rw [hsize, List.length_append] at hlength'
          rw [hfull, if_neg (by
            rw [← hbody, List.length_append, List.length_drop]
            omega)]
          dsimp only
          rw [← hbody, List.take_append_of_le_length (by rw [List.length_drop]; omega)]
    · rw [receiveHead_eq_none (by decide)]
      · dsimp only
        rw [if_pos (by omega)]
      · intro headers' rest' hcut'
        rw [List.nil_append, hcut] at hcut'
        cases hcut'
        exact hhead

end Reading

/-- A request in two pieces, cut within the blank line. -/
theorem readRequest_eq_twoPieces :
    readRequest [.bytes ⟨"POST /query HTTP/1.1\r\nContent-Length: 2\r\n\r".toList, by decide⟩,
        .interrupted, .bytes ⟨"\nhi!".toList, by decide⟩] =
      .request { method := "POST".toList, path := "/query".toList, body := ['h', 'i'] } := by
  have hcut : cutHead (arriving
      [.bytes ⟨"POST /query HTTP/1.1\r\nContent-Length: 2\r\n\r".toList, by decide⟩,
        .interrupted, .bytes ⟨"\nhi!".toList, by decide⟩]) =
      some ("POST /query HTTP/1.1\r\nContent-Length: 2".toList, ['h', 'i', '!']) := by
    decide +kernel
  have hlength : contentLengthFromHeaders "POST /query HTTP/1.1\r\nContent-Length: 2".toList =
      .ok (some 2) := by
    decide +kernel
  refine (readRequest_eq _ ⟨?_, ?_⟩).trans ?_
  · intro headers rest h
    rw [hcut] at h
    cases h
    left
    decide
  · intro headers rest n h hn
    rw [hcut] at h
    cases h
    rw [hlength] at hn
    cases hn
    decide
  · rw [requestIn, hcut]
    decide +kernel

/-! ## Sending -/

def lineEnd : List Char := ['\r', '\n']

def responseLines (status : Nat) (statusText contentType : String) (length : Nat) :
    List (List Char) :=
  ["HTTP/1.1 ".toList ++ (decimal status ++ ' ' :: statusText.toList),
    "Content-Type: ".toList ++ contentType.toList,
    "Content-Length: ".toList ++ decimal length,
    "Connection: close".toList,
    "Access-Control-Allow-Origin: *".toList,
    "Access-Control-Allow-Methods: GET, POST, OPTIONS".toList,
    "Access-Control-Allow-Headers: Content-Type".toList]

/-- `http_response`. -/
def httpResponse (status : Nat) (statusText contentType : String) (body : List Char) : List Char :=
  (responseLines status statusText contentType body.length).flatMap (· ++ lineEnd) ++
    (lineEnd ++ body)

/-- What one `send` of the rest of a text does. -/
inductive Sending where
  | taken (n : Nat)
  /-- `EINTR` -/
  | interrupted
  | failed

/-- `send_all`, with the bytes that have left. -/
def sendAll : List Sending → List Char → Bool × List Char
  | _, [] => (true, [])
  | [], _ :: _ => (false, [])
  | .taken n :: more, c :: data =>
    if n = 0 then (false, [])
    else
      let (ok, sent) := sendAll more ((c :: data).drop n)
      (ok, (c :: data).take n ++ sent)
  | .interrupted :: more, c :: data => sendAll more (c :: data)
  | .failed :: _, _ :: _ => (false, [])

/-- How a client reads a response up to the end of the connection: the status, and a body of the
length that the headers give. -/
def readResponse (bytes : List Char) : Option (Nat × List Char) := do
  let (headers, body) ← cutHead bytes
  let (_, rest) ← readWord headers
  let (_, status, _) ← scanNumber rest
  match contentLengthFromHeaders headers with
  | .ok (some length) => if body.length = length then some (status, body) else none
  | _ => none

/-! ## Lines -/

/-- A line of a header: not empty, and with no line end in it. -/
structure IsLine (line : List Char) : Prop where
  nonempty : line ≠ []
  noReturn : '\r' ∉ line
  noNewline : '\n' ∉ line

theorem cutHead_skip {c : Char} (h : c ≠ '\r') (text : List Char) :
    cutHead (c :: text) = (cutHead text).map fun (head, rest) => (c :: head, rest) := by
  rw [cutHead, if_neg]
  rintro ⟨_, heq⟩
  exact h (List.cons.inj heq).1.symm

theorem cutHead_append_of_not_mem {line : List Char} (h : '\r' ∉ line) (text : List Char) :
    cutHead (line ++ text) = (cutHead text).map fun (head, rest) => (line ++ head, rest) := by
  induction line with
  | nil =>
    rw [List.nil_append]
    exact Option.map_id'.symm
  | cons c line ih =>
    rw [List.mem_cons, not_or] at h
    rw [List.cons_append, cutHead_skip (Ne.symm h.1), ih h.2, Option.map_map]
    rfl

/-- A line end is not a blank line where a line follows. -/
theorem cutHead_lineEnd {c : Char} (h : c ≠ '\r') (text : List Char) :
    cutHead (lineEnd ++ c :: text) =
      (cutHead (c :: text)).map fun (head, rest) => (lineEnd ++ head, rest) := by
  have hreturn : ¬ blankLine <+: '\r' :: '\n' :: c :: text := by
    rintro ⟨_, heq⟩
    exact h (List.cons.inj (List.cons.inj (List.cons.inj heq).2).2).1.symm
  show cutHead ('\r' :: '\n' :: c :: text) = _
  rw [cutHead, if_neg hreturn, cutHead_skip (by decide), Option.map_map]
  rfl

/-- Header lines with a line end between them. -/
def joinLines (lines : List (List Char)) : List Char := lineEnd.intercalate lines

theorem joinLines_cons_cons (l m : List Char) (lines : List (List Char)) :
    joinLines (l :: m :: lines) = l ++ (lineEnd ++ joinLines (m :: lines)) := by
  rw [joinLines, joinLines, List.intercalate_cons_cons, List.append_assoc]

theorem joinLines_singleton (l : List Char) : joinLines [l] = l := List.intercalate_singleton

theorem flatMap_lineEnd {lines : List (List Char)} (hne : lines ≠ []) :
    lines.flatMap (· ++ lineEnd) = joinLines lines ++ lineEnd := by
  induction lines with
  | nil => exact absurd rfl hne
  | cons l lines ih =>
    cases lines with
    | nil => rw [List.flatMap_singleton, joinLines_singleton]
    | cons m lines =>
      rw [List.flatMap_cons, ih (List.cons_ne_nil m lines), joinLines_cons_cons, List.append_assoc,
        List.append_assoc, List.append_assoc]

theorem joinLines_begins {l : List Char} (h : IsLine l) (lines : List (List Char)) :
    ∃ c text, joinLines (l :: lines) = c :: text ∧ c ≠ '\r' := by
  cases l with
  | nil => exact absurd rfl h.nonempty
  | cons c l =>
    have hc : c ≠ '\r' := by
      rintro rfl
      exact h.noReturn List.mem_cons_self
    cases lines with
    | nil => exact ⟨c, l, joinLines_singleton _, hc⟩
    | cons m lines => exact ⟨c, _, joinLines_cons_cons _ m lines, hc⟩

/-- The lines of a header end at the blank line. -/
theorem cutHead_joinLines {lines : List (List Char)} (hne : lines ≠ [])
    (h : ∀ l ∈ lines, IsLine l) (body : List Char) :
    cutHead (joinLines lines ++ (blankLine ++ body)) = some (joinLines lines, body) := by
  have hend : cutHead (blankLine ++ body) = some ([], body) :=
    cutHead_of_prefix (List.prefix_append _ body)
  induction lines with
  | nil => exact absurd rfl hne
  | cons l lines ih =>
    have hl := h l List.mem_cons_self
    cases lines with
    | nil =>
      rw [joinLines_singleton, cutHead_append_of_not_mem hl.noReturn, hend, Option.map_some]
      dsimp only
      rw [List.append_nil]
    | cons m lines =>
      have hrest := ih (List.cons_ne_nil m lines) fun x hx => h x (List.mem_cons_of_mem l hx)
      rcases joinLines_begins (h m (List.mem_cons_of_mem l List.mem_cons_self)) lines with
        ⟨c, text, htext, hc⟩
      rw [joinLines_cons_cons, List.append_assoc, cutHead_append_of_not_mem hl.noReturn,
        List.append_assoc]
      rw [htext, List.cons_append] at hrest ⊢
      rw [cutHead_lineEnd hc, hrest]
      rfl

theorem stripped_append_return (line : List Char) : stripped (line ++ ['\r']) = line := by
  rw [stripped, if_pos (List.getLast?_concat ..), List.dropLast_concat]

theorem stripped_of_isLine {line : List Char} (h : IsLine line) : stripped line = line := by
  rw [stripped, if_neg]
  intro hlast
  exact h.noReturn (List.mem_of_getLast? hlast)

theorem map_stripped_linesOf {lines : List (List Char)} (hne : lines ≠ [])
    (h : ∀ l ∈ lines, IsLine l) : (linesOf '\n' (joinLines lines)).map stripped = lines := by
  have hsplit : (joinLines lines).splitOn '\n' ≠ [] ∧
      ((joinLines lines).splitOn '\n').getLast? ≠ some [] ∧
      ((joinLines lines).splitOn '\n').map stripped = lines := by
    induction lines with
    | nil => exact absurd rfl hne
    | cons l lines ih =>
      have hl := h l List.mem_cons_self
      cases lines with
      | nil =>
        have hone : l.splitOn '\n' = [l] := List.splitOn_eq_singleton hl.noNewline
        rw [joinLines_singleton, hone]
        refine ⟨List.cons_ne_nil _ _, ?_, ?_⟩
        · rw [List.getLast?_singleton, ne_eq, Option.some.injEq]
          exact hl.nonempty
        · rw [List.map_singleton, stripped_of_isLine hl]
      | cons m lines =>
        rcases ih (List.cons_ne_nil m lines) fun x hx => h x (List.mem_cons_of_mem l hx) with
          ⟨hrestne, hlast, hrest⟩
        have hfirst : '\n' ∉ l ++ ['\r'] := by
          rw [List.mem_append, List.mem_singleton, not_or]
          exact ⟨hl.noNewline, by decide⟩
        have hjoin : joinLines (l :: m :: lines) =
            (l ++ ['\r']) ++ '\n' :: joinLines (m :: lines) := by
          rw [joinLines_cons_cons, List.append_assoc]
          rfl
        rw [hjoin, List.splitOn_append_cons_self_of_not_mem hfirst]
        refine ⟨List.cons_ne_nil _ _, ?_, ?_⟩
        · rwa [List.getLast?_cons_of_ne_nil hrestne]
        · rw [List.map_cons, hrest, stripped_append_return]
  rw [linesOf, if_neg hsplit.2.1]
  exact hsplit.2.2

theorem lengthLoop_congr {lines lines' : List (List Char)}
    (h : lines.map stripped = lines'.map stripped) : lengthLoop lines = lengthLoop lines' := by
  induction lines generalizing lines' with
  | nil => rw [List.map_eq_nil_iff.mp (h.symm.trans List.map_nil)]
  | cons l lines ih =>
    cases lines' with
    | nil => cases h
    | cons l' lines' =>
      rw [List.map_cons, List.map_cons, List.cons.injEq] at h
      rw [lengthLoop, lengthLoop, h.1, ih h.2]

theorem contentLength_joinLines {lines : List (List Char)} (hne : lines ≠ [])
    (h : ∀ l ∈ lines, IsLine l) : contentLengthFromHeaders (joinLines lines) = lengthLoop lines := by
  apply lengthLoop_congr
  rw [map_stripped_linesOf hne h]
  symm
  exact (List.map_congr_left fun l hl => stripped_of_isLine (h l hl)).trans (List.map_id _)

/-! ## What a client reads -/

/-- No line ends. -/
def isPlain (text : List Char) : Bool := text.all fun c => c != '\r' && c != '\n'

theorem isLine_of_isPlain {line : List Char} (hne : line ≠ []) (h : isPlain line = true) :
    IsLine line := by
  have hplain : ∀ c ∈ line, c ≠ '\r' ∧ c ≠ '\n' := by
    intro c hc
    have hchar := List.all_eq_true.mp h c hc
    rwa [Bool.and_eq_true, bne_iff_ne, bne_iff_ne] at hchar
  refine ⟨hne, ?_, ?_⟩
  · intro hmem
    exact (hplain _ hmem).1 rfl
  · intro hmem
    exact (hplain _ hmem).2 rfl

theorem isLine_append {front back : List Char} (hne : front ≠ []) (hfront : isPlain front = true)
    (hback : isPlain back = true) : IsLine (front ++ back) := by
  apply isLine_of_isPlain
  · intro hnil
    exact hne (List.append_eq_nil_iff.mp hnil).1
  · rw [isPlain, List.all_append, Bool.and_eq_true]
    exact ⟨hfront, hback⟩

theorem isPlain_decimal (n : Nat) : isPlain (decimal n) = true := by
  apply List.all_eq_true.mpr
  intro c hc
  have hdigit : c.isDigit = true := isDigit_of_mem_toDigits hc
  rw [Bool.and_eq_true, bne_iff_ne, bne_iff_ne]
  constructor
  · rintro rfl
    exact absurd hdigit (by decide)
  · rintro rfl
    exact absurd hdigit (by decide)

section Response

variable (status : Nat) {statusText contentType : String} (body : List Char)

theorem httpResponse_eq : httpResponse status statusText contentType body =
    joinLines (responseLines status statusText contentType body.length) ++
      (blankLine ++ body) := by
  rw [httpResponse, flatMap_lineEnd (by rw [responseLines]; exact List.cons_ne_nil _ _),
    List.append_assoc]
  rfl

variable (hstatus : isPlain statusText.toList = true) (htype : isPlain contentType.toList = true)
include hstatus htype

theorem isLine_responseLines (n : Nat) :
    ∀ l ∈ responseLines status statusText contentType n, IsLine l := by
  have hfirst : isPlain (decimal status ++ ' ' :: statusText.toList) = true := by
    rw [isPlain, List.all_append, Bool.and_eq_true]
    exact ⟨isPlain_decimal status, hstatus⟩
  intro l hl
  simp only [responseLines, List.mem_cons, List.not_mem_nil, or_false] at hl
  rcases hl with rfl | rfl | rfl | rfl | rfl | rfl | rfl
  · exact isLine_append (by decide) (by decide) hfirst
  · exact isLine_append (by decide) (by decide) htype
  · exact isLine_append (by decide) (by decide) (isPlain_decimal n)
  · exact isLine_of_isPlain (by decide) (by decide)
  · exact isLine_of_isPlain (by decide) (by decide)
  · exact isLine_of_isPlain (by decide) (by decide)
  · exact isLine_of_isPlain (by decide) (by decide)

theorem cutHead_httpResponse : cutHead (httpResponse status statusText contentType body) =
    some (joinLines (responseLines status statusText contentType body.length), body) := by
  rw [httpResponse_eq]
  exact cutHead_joinLines (List.cons_ne_nil _ _) (isLine_responseLines status hstatus htype _) body

omit hstatus htype in
theorem lengthLoop_skip {line : List Char} (hline : IsLine line)
    (h : (line.take 9).map Char.toLower ≠ lowerPrefix.take 9) (lines : List (List Char)) :
    lengthLoop (line :: lines) = lengthLoop lines := by
  rw [lengthLoop, stripped_of_isLine hline, if_neg]
  intro hfront
  refine h ?_
  rw [← hfront, ← List.map_take, List.take_take]
  rfl

/-- The length that the headers give is the one of the body. -/
theorem lengthLoop_responseLines {n : Nat} (hn : n < 2 ^ 64) :
    lengthLoop (responseLines status statusText contentType n) = .ok (some n) := by
  have hlines := isLine_responseLines status hstatus htype n
  have hnumber : stoull (' ' :: decimal n) = .ok n := by
    have hscan : scanNumber (' ' :: (decimal n ++ [])) = some (false, n, []) :=
      scanNumber_decimal (by simp)
    rw [List.append_nil] at hscan
    rw [stoull, hscan]
    simp only [Bool.false_eq_true, if_false, if_pos hn]
  rw [responseLines] at hlines ⊢
  rw [lengthLoop_skip (hlines _ List.mem_cons_self), lengthLoop_skip (hlines _ (by simp)),
    lengthLoop, stripped_of_isLine (hlines _ (by simp)),
    List.take_append_of_le_length (by decide), if_pos (by decide),
    List.drop_append_of_le_length (by decide)]
  · have hdrop : "Content-Length: ".toList.drop lowerPrefix.length = [' '] := by decide
    rw [hdrop, List.singleton_append, hnumber]
    rfl
  · rw [List.take_append_of_le_length (by decide)]
    decide
  · rw [List.take_append_of_le_length (by decide)]
    decide

/-- A response that has arrived as a whole. -/
theorem readResponse_httpResponse (hbody : body.length < 2 ^ 64) :
    readResponse (httpResponse status statusText contentType body) = some (status, body) := by
  have hlines := isLine_responseLines status hstatus htype body.length
  have hlength := contentLength_joinLines (by rw [responseLines]; exact List.cons_ne_nil _ _) hlines
  rw [lengthLoop_responseLines status hstatus htype hbody] at hlength
  have hword : IsWord isSpace "HTTP/1.1".toList := ⟨by decide, fun c hc => by
    have hall : "HTTP/1.1".toList.all (fun c => !isSpace c) = true := by decide
    simpa using List.all_eq_true.mp hall c hc⟩
  have hheaders : ∃ rest, joinLines (responseLines status statusText contentType body.length) =
      "HTTP/1.1".toList ++ ' ' :: (decimal status ++ ' ' :: rest) := by
    refine ⟨statusText.toList ++ (lineEnd ++ joinLines
      (responseLines status statusText contentType body.length).tail), ?_⟩
    have hfront : "HTTP/1.1 ".toList = "HTTP/1.1".toList ++ [' '] := by decide
    rw [responseLines, joinLines_cons_cons, hfront]
    simp only [List.append_assoc, List.cons_append, List.nil_append, List.tail_cons]
  rcases hheaders with ⟨rest, hheaders⟩
  have hnumber : scanNumber (' ' :: (decimal status ++ ' ' :: rest)) =
      some (false, status, ' ' :: rest) := by
    apply scanNumber_decimal
    intro c hc
    cases hc
    decide
  rw [readResponse, cutHead_httpResponse status body hstatus htype]
  simp only [Option.bind_eq_bind, Option.bind_some]
  rw [hlength, hheaders, readWord, hword.takeWord_append (by decide)]
  simp only [Option.bind_some, hnumber, if_true]

/-- A response that has been cut short is not read. -/
theorem readResponse_cut (hbody : body.length < 2 ^ 64) {sent : List Char}
    (hsent : sent <+: httpResponse status statusText contentType body)
    (hne : sent ≠ httpResponse status statusText contentType body) : readResponse sent = none := by
  rcases hsent with ⟨missing, hsent⟩
  have hmissing : missing ≠ [] := by
    rintro rfl
    rw [List.append_nil] at hsent
    exact hne hsent
  rw [readResponse]
  cases hcut : cutHead sent with
  | none => rfl
  | some found =>
    rcases found with ⟨headers, back⟩
    have happend := cutHead_append hcut missing
    rw [hsent, cutHead_httpResponse status body hstatus htype] at happend
    cases happend
    have hlines := isLine_responseLines status hstatus htype (back ++ missing).length
    have hlength := contentLength_joinLines (by rw [responseLines]; exact List.cons_ne_nil _ _) hlines
    rw [lengthLoop_responseLines status hstatus htype hbody] at hlength
    have hshort : back.length ≠ (back ++ missing).length := by
      have hpos := List.length_pos_of_ne_nil hmissing
      rw [List.length_append]
      omega
    simp only [Option.bind_eq_bind, Option.bind_some]
    rw [hlength]
    simp only [if_neg hshort]
    rw [Option.bind_eq_none_iff]
    rintro ⟨_, rest⟩ -
    rw [Option.bind_eq_none_iff]
    rintro ⟨_, n, _⟩ -
    rfl

omit hstatus htype in
/-- What has left is the front of the text, and all of it where `send_all` succeeds. -/
theorem sendAll_sent (sendings : List Sending) (data : List Char) :
    (sendAll sendings data).2 <+: data ∧
      ((sendAll sendings data).1 = true ↔ (sendAll sendings data).2 = data) := by
  induction sendings generalizing data with
  | nil =>
    cases data with
    | nil => exact ⟨List.prefix_refl _, by simp [sendAll]⟩
    | cons c data => exact ⟨List.nil_prefix, by simp [sendAll]⟩
  | cons sending more ih =>
    cases data with
    | nil => exact ⟨List.prefix_refl _, by simp [sendAll]⟩
    | cons c data =>
      cases sending with
      | interrupted => exact ih (c :: data)
      | failed => exact ⟨List.nil_prefix, by simp [sendAll]⟩
      | taken n =>
        rw [sendAll]
        split
        · exact ⟨List.nil_prefix, by simp⟩
        · rcases ih ((c :: data).drop n) with ⟨hfront, hok⟩
          have hwhole : (c :: data).take n ++ (c :: data).drop n = c :: data :=
            List.take_append_drop n _
          constructor
          · have happend := (List.prefix_append_right_inj ((c :: data).take n)).mpr hfront
            rwa [hwhole] at happend
          · show (sendAll more ((c :: data).drop n)).1 = true ↔
              (c :: data).take n ++ (sendAll more ((c :: data).drop n)).2 = c :: data
            rw [hok]
            constructor
            · intro hrest
              rw [hrest, hwhole]
            · intro heq
              exact List.append_cancel_left (heq.trans hwhole.symm)

/-- However a response is sent, and wherever sending it fails: a client that reads what has
arrived gets the status and the body, or nothing where `send_all` has failed. -/
theorem readResponse_sendAll (hbody : body.length < 2 ^ 64) (sendings : List Sending) :
    readResponse (sendAll sendings (httpResponse status statusText contentType body)).2 =
      if (sendAll sendings (httpResponse status statusText contentType body)).1 then
        some (status, body)
      else none := by
  rcases sendAll_sent sendings (httpResponse status statusText contentType body) with
    ⟨hfront, hok⟩
  split
  · rename_i h
    rw [hok.mp h]
    exact readResponse_httpResponse status body hstatus htype hbody
  · rename_i h
    exact readResponse_cut status body hstatus htype hbody hfront (mt hok.mpr h)

end Response

end HttpMessages

end ScratchDb
