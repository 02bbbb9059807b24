import Onceproof.Http.Body

/-!
# Bodies and chunks

The object that a request carries depends on the bytes of its body and not on the messages that
deliver them. The media type is checked before the body is read, so an oversized body is reported
as such for JSON requests only.
-/

namespace Onceproof

namespace Http

section Chunking

variable {loads : Bytes → Decoding} {maxRequestBytes : ℕ} {scope : Scope}
variable {allowed required : List Str} {B : Bytes} {ms : List Message}

/-- A decoder does not report an oversized body. -/
theorem Decoding.value_ne_tooLarge (d : Decoding) :
    d.value ≠ .error (.request 413 "request_too_large") := by
  intro h
  rcases except_bind_eq_error h with hhook | ⟨_, -, hending⟩
  · obtain ⟨pairs, -, hpairs⟩ := except_mapM_eq_error hhook
    unfold objectWithoutDuplicates at hpairs
    split_ifs at hpairs
    have hcode := HttpError.request.inj (Except.error.inj hpairs)
    exact absurd hcode.1 (by decide)
  · cases hvalue : d.ending with
    | ok v =>
      rw [hvalue] at hending
      cases hending
    | error e =>
      rw [hvalue] at hending
      cases e with
      | invalid =>
        have hcode := HttpError.request.inj (Except.error.inj hending)
        exact absurd hcode.1 (by decide)
      | overlongInteger => cases hending
      | recursion => cases hending

theorem strictObject_ne_tooLarge (value : Json) :
    strictObject value allowed required ≠ .error (.request 413 "request_too_large") := by
  intro h
  unfold strictObject at h
  split at h
  · split_ifs at h <;> exact absurd (HttpError.request.inj (Except.error.inj h)).1 (by decide)
  · exact absurd (HttpError.request.inj (Except.error.inj h)).1 (by decide)

/-- An oversized body is reported for JSON requests. -/
theorem readJson_tooLarge_iff (h : Delivers B ms) :
    readJson loads maxRequestBytes scope ms allowed required =
        .error (.request 413 "request_too_large") ↔
      contentTypeIsJson scope = true ∧ maxRequestBytes < B.length := by
  rw [readJson_of_delivers h]
  split_ifs with htype hlarge hempty
  · refine iff_of_false (fun heq => ?_) fun hand => ?_
    · exact absurd (HttpError.request.inj (Except.error.inj heq)).1 (by decide)
    · rw [htype] at hand
      cases hand.1
  · exact iff_of_true rfl ⟨by simpa using htype, hlarge⟩
  · refine iff_of_false (fun heq => ?_) fun hand => hlarge hand.2
    exact absurd (HttpError.request.inj (Except.error.inj heq)).1 (by decide)
  · refine iff_of_false (fun heq => ?_) fun hand => hlarge hand.2
    rcases except_bind_eq_error heq with hvalue | ⟨value, -, hobject⟩
    · exact (loads B).value_ne_tooLarge hvalue
    · exact strictObject_ne_tooLarge value hobject

theorem readJson_of_disconnect {pre rest : List Message} (hpre : ∀ m ∈ pre, m.isLast = false) :
    ∃ e, readJson loads maxRequestBytes scope (pre ++ .disconnect :: rest) allowed required =
      .error e := by
  obtain ⟨e, he⟩ : ∃ e, readMessages maxRequestBytes [] (pre ++ .disconnect :: rest) = .error e :=
    readMessages_of_disconnect hpre []
  unfold readJson
  rw [he]
  split_ifs
  · exact ⟨_, rfl⟩
  · exact ⟨e, rfl⟩

end Chunking

/-- **Request bodies are independent of chunking.** Two sequences of messages that deliver the
same bytes give the same object or the same exception. It is the one for an oversized body if and
only if the media type is JSON and the bytes are more than allowed. A disconnect before the last
chunk gives an exception, and the buffer never holds more than what is allowed and one chunk. -/
theorem chunking_independent (loads : Bytes → Decoding) (maxRequestBytes : ℕ) (scope : Scope)
    (allowed required : List Str) :
    (∀ B ms₁ ms₂, Delivers B ms₁ → Delivers B ms₂ →
      readJson loads maxRequestBytes scope ms₁ allowed required =
        readJson loads maxRequestBytes scope ms₂ allowed required) ∧
    (∀ B ms, Delivers B ms →
      (readJson loads maxRequestBytes scope ms allowed required =
          .error (.request 413 "request_too_large") ↔
        contentTypeIsJson scope = true ∧ maxRequestBytes < B.length)) ∧
    (∀ pre rest, (∀ m ∈ pre, m.isLast = false) →
      ∃ e, readJson loads maxRequestBytes scope (pre ++ .disconnect :: rest) allowed required =
        .error e) ∧
    ∀ ms, ∀ b ∈ buffers maxRequestBytes [] ms,
      ∃ m ∈ ms, b.length ≤ maxRequestBytes + m.chunk.length := by
  refine ⟨fun B ms₁ ms₂ h₁ h₂ => ?_, fun B ms h => readJson_tooLarge_iff h, fun pre rest hpre => ?_,
    fun ms => length_le_of_mem_buffers (Nat.zero_le _)⟩
  · rw [readJson_of_delivers h₁, readJson_of_delivers h₂]
  · exact readJson_of_disconnect hpre

/-- A request with the media type of JSON. -/
def jsonScope : Scope :=
  ⟨lit "POST", lit "/v1/proofs", [], [(ascii "content-type", ascii "application/json")]⟩

/-- The bytes of an empty object in one message. -/
def inOneChunk : List Message := [.request (some [123, 125]) none]

/-- The same bytes in two messages, with an empty chunk and a message of another type between. -/
def inThreeChunks : List Message :=
  [.request (some [123]) (some true), .other, .request none (some true),
    .request (some [125]) (some false)]

/-- The object is read from both. -/
theorem chunking_independent_split :
    Delivers [123, 125] inOneChunk ∧ Delivers [123, 125] inThreeChunks ∧
      readJson (fun _ => ⟨[[]], .ok (.obj [])⟩) 1024 jsonScope inOneChunk [] [] = .ok [] ∧
      readJson (fun _ => ⟨[[]], .ok (.obj [])⟩) 1024 jsonScope inOneChunk [] [] =
        readJson (fun _ => ⟨[[]], .ok (.obj [])⟩) 1024 jsonScope inThreeChunks [] [] := by
  have hone : Delivers [123, 125] inOneChunk := @Delivers.last (some [123, 125]) none rfl []
  have hthree : Delivers [123, 125] inThreeChunks :=
    .more (some [123]) <| .other <| .more none <| @Delivers.last (some [125]) (some false) rfl []
  refine ⟨hone, hthree, by rfl, ?_⟩
  exact (chunking_independent _ 1024 jsonScope [] []).1 _ _ _ hone hthree

/-- A body of 1025 bytes where 1024 are allowed, without a media type: it is not reported as
oversized. -/
theorem chunking_counterexample :
    ¬ ∀ (loads : Bytes → Decoding) (maxRequestBytes : ℕ) (scope : Scope)
      (allowed required : List Str) (B : Bytes) (ms : List Message),
      1024 ≤ maxRequestBytes → maxRequestBytes ≤ 1048576 → Delivers B ms →
      (readJson loads maxRequestBytes scope ms allowed required =
        .error (.request 413 "request_too_large") ↔ maxRequestBytes < B.length) := by
  intro h
  have hfinal : (none : Option Bool).getD false = false := rfl
  have hdelivers : Delivers ((some (List.replicate 1025 0) : Option Bytes).getD [])
      [.request (some (List.replicate 1025 0)) none] := .last hfinal []
  have hlarge := (h (fun _ => ⟨[], .error .invalid⟩) 1024
    ⟨lit "POST", lit "/v1/proofs", [], []⟩ [] [] _ _ le_rfl (by decide) hdelivers).mpr
      (by rw [Option.getD_some, List.length_replicate]; decide)
  rw [readJson, if_pos (by decide)] at hlarge
  exact absurd (HttpError.request.inj (Except.error.inj hlarge)).1 (by decide)

end Http

end Onceproof
