import Onceproof.Crypto
import Onceproof.Lib.Json

/-!
# Request bodies

How the ASGI application reads the JSON object of a request: the media type, the messages that
carry the body, the decoder and the fields. The messages are those that arrive before the
deadline: where they end without a last chunk, the deadline passes.

* `readMessage` is one turn of the loop, `readMessages` the loop, and `buffers` what its buffer
  holds after each turn.
* `Delivers B ms`: the messages deliver the bytes `B` in chunks.
* `readMessages_of_delivers`: what is read depends on the bytes alone.
-/

namespace Onceproof

/-- Exceptions inside the application. -/
inductive HttpError
  /-- `_RequestError`. -/
  | request (status : ℕ) (code : String)
  /-- An exception of the service, or a `ValueError` of the decoder. -/
  | service (e : Error)
  /-- `RecursionError`. -/
  | recursionError
  deriving DecidableEq

namespace Http

/-- `bytes.lower`. -/
def lower (b : Bytes) : Bytes := b.map fun c => if 65 ≤ c ∧ c ≤ 90 then c + 32 else c

/-- The bytes that `bytes.strip` removes. -/
def isSpace (c : UInt8) : Bool := c = 32 || (9 ≤ c && c ≤ 13)

/-- `bytes.strip`. -/
def strip (b : Bytes) : Bytes := ((b.dropWhile isSpace).reverse.dropWhile isSpace).reverse

/-- An ASGI scope of type `http`. -/
structure Scope where
  method : Str
  path : Str
  queryString : Bytes
  headers : List (Bytes × Bytes)

/-- `_header_values`. -/
def headerValues (scope : Scope) (name : Bytes) : List Bytes :=
  (scope.headers.filter fun header => lower header.1 = name).map Prod.snd

/-- `_content_type_is_json`. -/
def contentTypeIsJson (scope : Scope) : Bool :=
  match headerValues scope (ascii "content-type") with
  | [value] => lower (strip (value.takeWhile (· ≠ 59))) = ascii "application/json"
  | _ => false

/-! ### Messages -/

/-- What `receive` answers. The fields of a chunk may be missing. -/
inductive Message
  /-- `http.request`. -/
  | request (body : Option Bytes) (moreBody : Option Bool)
  /-- `http.disconnect`. -/
  | disconnect
  /-- A message of another type. -/
  | other

/-- The bytes of a message. -/
def Message.chunk : Message → Bytes
  | request body _ => body.getD []
  | _ => []

/-- The message is a chunk after which nothing follows. -/
def Message.isLast : Message → Bool
  | request _ moreBody => !moreBody.getD false
  | _ => false

/-- One turn of the loop in `_read_json`: the buffer after it, and how the loop ends if it
ends here. -/
def readMessage (maxRequestBytes : ℕ) (buffer : Bytes) :
    Message → Bytes × Option (Except HttpError Bytes)
  | .disconnect => (buffer, some (.error (.request 400 "incomplete_request")))
  | .other => (buffer, none)
  | .request body moreBody =>
    let buffer := buffer ++ body.getD []
    if maxRequestBytes < buffer.length then
      (buffer, some (.error (.request 413 "request_too_large")))
    else if moreBody.getD false then (buffer, none)
    else (buffer, some (.ok buffer))

/-- The loop in `_read_json`, under the timeout. -/
def readMessages (maxRequestBytes : ℕ) : Bytes → List Message → Except HttpError Bytes
  | _, [] => .error (.request 408 "request_timeout")
  | buffer, m :: ms =>
    match readMessage maxRequestBytes buffer m with
    | (_, some x) => x
    | (buffer, none) => readMessages maxRequestBytes buffer ms

/-- The contents of the buffer after each turn. -/
def buffers (maxRequestBytes : ℕ) : Bytes → List Message → List Bytes
  | _, [] => []
  | buffer, m :: ms =>
    match readMessage maxRequestBytes buffer m with
    | (buffer, some _) => [buffer]
    | (buffer, none) => buffer :: buffers maxRequestBytes buffer ms

/-! ### Decoding -/

/-- A run of `json.loads`: the pairs that it hands to its hook, object by object, and how it
ends if the hook never raises. -/
structure Decoding where
  objects : List (List (Str × Json))
  ending : Except DecodeError Json

/-- `_object_without_duplicates`. -/
def objectWithoutDuplicates (pairs : List (Str × Json)) : Except HttpError Json :=
  if (pairs.map Prod.fst).Nodup then .ok (.obj pairs)
  else .error (.request 400 "duplicate_json_field")

/-- The exceptions of the decoder as `_read_json` passes them on. -/
def raised : DecodeError → HttpError
  | .invalid => .request 400 "invalid_json"
  | .overlongInteger =>
    .service (.valueError "Exceeds the limit (4300 digits) for integer string conversion")
  | .recursion => .recursionError

/-- `json.loads(body, object_pairs_hook=_object_without_duplicates)`. -/
def Decoding.value (d : Decoding) : Except HttpError Json := do
  let _ ← d.objects.mapM objectWithoutDuplicates
  d.ending.mapError raised

/-- `_strict_object`. -/
def strictObject (value : Json) (allowed required : List Str) :
    Except HttpError (List (Str × Json)) :=
  match value with
  | .obj members =>
    if members.any fun m => m.1 ∉ allowed then .error (.request 400 "unknown_fields")
    else if required.any fun field => field ∉ members.map Prod.fst then
      .error (.request 400 "missing_fields")
    else .ok members
  | _ => .error (.request 400 "json_object_required")

/-- `_read_json`. -/
def readJson (loads : Bytes → Decoding) (maxRequestBytes : ℕ) (scope : Scope)
    (messages : List Message) (allowed required : List Str) :
    Except HttpError (List (Str × Json)) :=
  if !contentTypeIsJson scope then .error (.request 415 "content_type_must_be_json")
  else do
    let body ← readMessages maxRequestBytes [] messages
    if body = [] then .error (.request 400 "empty_request")
    else
      let value ← (loads body).value
      strictObject value allowed required

/-! ### Chunks -/

/-- The messages deliver the bytes: chunks that announce more, a last chunk that does not, other
messages in between and anything after. -/
inductive Delivers : Bytes → List Message → Prop
  | last {body : Option Bytes} {moreBody : Option Bool} (final : moreBody.getD false = false)
      (rest : List Message) : Delivers (body.getD []) (.request body moreBody :: rest)
  | more {B : Bytes} {ms : List Message} (body : Option Bytes) (tail : Delivers B ms) :
      Delivers (body.getD [] ++ B) (.request body (some true) :: ms)
  | other {B : Bytes} {ms : List Message} (tail : Delivers B ms) : Delivers B (.other :: ms)

section Loop

variable {maxRequestBytes : ℕ} {buffer B : Bytes} {m : Message} {ms : List Message}

theorem readMessage_request (body : Option Bytes) (moreBody : Option Bool) :
    readMessage maxRequestBytes buffer (.request body moreBody) =
      if maxRequestBytes < (buffer ++ body.getD []).length then
        (buffer ++ body.getD [], some (.error (.request 413 "request_too_large")))
      else if moreBody.getD false then (buffer ++ body.getD [], none)
      else (buffer ++ body.getD [], some (.ok (buffer ++ body.getD []))) := rfl

/-- **What is read depends on the bytes alone**: all of them if they fit behind what the buffer
already holds. -/
theorem readMessages_of_delivers (h : Delivers B ms) (buffer : Bytes) :
    readMessages maxRequestBytes buffer ms =
      if maxRequestBytes < (buffer ++ B).length then
        .error (.request 413 "request_too_large")
      else .ok (buffer ++ B) := by
  induction h generalizing buffer with
  | @last body moreBody final rest =>
    rw [readMessages, readMessage_request, final, if_neg Bool.false_ne_true]
    by_cases hlarge : maxRequestBytes < (buffer ++ body.getD []).length
    · rw [if_pos hlarge, if_pos hlarge]
    · rw [if_neg hlarge, if_neg hlarge]
  | @more B ms body tail ih =>
    rw [readMessages, readMessage_request, Option.getD_some, if_pos rfl, ← List.append_assoc]
    by_cases hlarge : maxRequestBytes < (buffer ++ body.getD []).length
    · -- what comes later does not make the body smaller
      have hgrown : maxRequestBytes < (buffer ++ body.getD [] ++ B).length := by
        rw [List.length_append]
        omega
      rw [if_pos hlarge, if_pos hgrown]
    · rw [if_neg hlarge]
      exact ih (buffer ++ body.getD [])
  | other tail ih =>
    rw [readMessages]
    exact ih buffer

/-- A turn that does not see a last chunk does not end the loop with a body. -/
theorem readMessage_ok {body : Bytes}
    (h : (readMessage maxRequestBytes buffer m).2 = some (.ok body)) : m.isLast = true := by
  cases m with
  | disconnect => cases h
  | other => cases h
  | request chunk moreBody =>
    rw [readMessage_request] at h
    split_ifs at h with hlarge hmore
    · cases h
    · simpa [Message.isLast] using hmore

/-- **A disconnect before the last chunk** ends the loop with an exception. -/
theorem readMessages_of_disconnect {pre rest : List Message}
    (hpre : ∀ m ∈ pre, m.isLast = false) (buffer : Bytes) :
    ∃ e, readMessages maxRequestBytes buffer (pre ++ .disconnect :: rest) = .error e := by
  induction pre generalizing buffer with
  | nil => exact ⟨_, rfl⟩
  | cons m pre ih =>
    obtain ⟨hm, hpre⟩ := List.forall_mem_cons.mp hpre
    rw [List.cons_append, readMessages]
    rcases hturn : readMessage maxRequestBytes buffer m with ⟨buffer', _ | ⟨e | body⟩⟩
    · exact ih hpre buffer'
    · exact ⟨e, rfl⟩
    · have hlast : m.isLast = true := readMessage_ok (congrArg Prod.snd hturn)
      rw [hm] at hlast
      cases hlast

/-- A turn appends the chunk of its message. -/
theorem readMessage_length :
    (readMessage maxRequestBytes buffer m).1.length = buffer.length + m.chunk.length := by
  cases m with
  | disconnect => rfl
  | other => rfl
  | request body moreBody =>
    rw [readMessage_request]
    split_ifs <;> exact List.length_append

/-- The loop goes on only with a buffer within the bound. -/
theorem readMessage_none (hbuffer : buffer.length ≤ maxRequestBytes)
    (h : (readMessage maxRequestBytes buffer m).2 = none) :
    (readMessage maxRequestBytes buffer m).1.length ≤ maxRequestBytes := by
  cases m with
  | disconnect => cases h
  | other => exact hbuffer
  | request body moreBody =>
    rw [readMessage_request] at h ⊢
    split_ifs at h ⊢ with hlarge
    exact not_lt.mp hlarge

/-- **The buffer** never exceeds the bound by more than one chunk. -/
theorem length_le_of_mem_buffers (hbuffer : buffer.length ≤ maxRequestBytes) :
    ∀ b ∈ buffers maxRequestBytes buffer ms,
      ∃ m ∈ ms, b.length ≤ maxRequestBytes + m.chunk.length := by
  induction ms generalizing buffer with
  | nil =>
    intro b hb
    cases hb
  | cons m ms ih =>
    intro b hb
    have hlength : (readMessage maxRequestBytes buffer m).1.length =
        buffer.length + m.chunk.length := readMessage_length
    have hnone := readMessage_none (m := m) hbuffer
    rw [buffers] at hb
    rcases hturn : readMessage maxRequestBytes buffer m with ⟨buffer', _ | x⟩
    · rw [hturn] at hb hlength hnone
      rcases List.mem_cons.mp hb with rfl | hb
      · exact ⟨m, List.mem_cons_self, by rw [hlength]; omega⟩
      · obtain ⟨m', hm', hb⟩ := ih (hnone rfl) b hb
        exact ⟨m', List.mem_cons_of_mem m hm', hb⟩
    · rw [hturn] at hb hlength
      obtain rfl := List.mem_singleton.mp hb
      exact ⟨m, List.mem_cons_self, by rw [hlength]; omega⟩

/-- What `_read_json` makes of a body that is delivered. -/
theorem readJson_of_delivers {loads : Bytes → Decoding} {scope : Scope}
    {allowed required : List Str}
    (h : Delivers B ms) :
    readJson loads maxRequestBytes scope ms allowed required =
      if contentTypeIsJson scope = false then .error (.request 415 "content_type_must_be_json")
      else if maxRequestBytes < B.length then .error (.request 413 "request_too_large")
      else if B = [] then .error (.request 400 "empty_request")
      else (loads B).value >>= fun value => strictObject value allowed required := by
  unfold readJson
  rw [readMessages_of_delivers h, List.nil_append]
  cases contentTypeIsJson scope with
  | false => rfl
  | true =>
    by_cases hlarge : maxRequestBytes < B.length
    · simp [hlarge]
    · by_cases hempty : B = [] <;> simp [hlarge, hempty]

end Loop

end Http

end Onceproof
