import Onceproof.Lib.Text
import Mathlib.Data.Int.Notation

/-!
# Exceptions

The exceptions that the service, the ledger and the keyring raise, one constructor for each
exception class. A `ValueError` or a `PermissionError` carries the code it was raised with.
`DecodeError` is what the JSON decoder raises by itself.
-/

namespace Onceproof

/-- Exceptions by class. -/
inductive Error
  | valueError (code : String)
  /-- `ValueError(f"{code}:{field}")`, where the field is a text of the input. -/
  | valueErrorAt (code : String) (field : Str)
  | typeError
  | permissionError (code : String)
  | keyError (id : Str)
  | rateLimitError (retryAfterSeconds : ℤ)
  | storeCorruptionError
  | keyringCommitUncertain
  | restoreRequiredError
  | instanceBusyError
  | fileExistsError
  /-- `sqlite3.IntegrityError`: a constraint of the schema refused a statement. -/
  | integrityError
  /-- `UnicodeEncodeError`: a text with a lone surrogate was bound or encoded. -/
  | unicodeEncodeError
  /-- `OverflowError`: an integer of more than 64 bits was bound. -/
  | overflowError
  /-- `RecursionError`: the decoder was given a text that is nested too deeply. -/
  | recursionError
  /-- Any other exception: an interrupt, a full disk, a failing system call. -/
  | interrupted
  deriving DecidableEq

/-- What `json.loads` raises by itself. -/
inductive DecodeError
  /-- `JSONDecodeError` or `UnicodeDecodeError`. -/
  | invalid
  /-- The `ValueError` for an integer with too many digits. -/
  | overlongInteger
  /-- `RecursionError`. -/
  | recursion
  deriving DecidableEq

section Except

variable {ε α β : Type}

@[simp] theorem except_ok_bind (a : α) (f : α → Except ε β) : Except.ok a >>= f = f a := rfl

@[simp] theorem except_error_bind (e : ε) (f : α → Except ε β) :
    Except.error e >>= f = .error e := rfl

@[simp] theorem except_map_ok (a : α) (f : α → β) :
    f <$> (Except.ok a : Except ε α) = .ok (f a) := rfl

@[simp] theorem except_pure (a : α) : (pure a : Except ε α) = .ok a := rfl

@[simp] theorem except_throw (e : ε) : (throw e : Except ε α) = .error e := rfl

/-- A sequence that ends well has an intermediate value. -/
theorem except_bind_eq_ok {x : Except ε α} {f : α → Except ε β} {b : β}
    (h : x >>= f = .ok b) : ∃ a, x = .ok a ∧ f a = .ok b := by
  cases x with
  | error e => cases h
  | ok a => exact ⟨a, rfl, h⟩

theorem except_bind_eq_error {x : Except ε α} {f : α → Except ε β} {e : ε}
    (h : x >>= f = .error e) : x = .error e ∨ ∃ a, x = .ok a ∧ f a = .error e := by
  cases x with
  | error e' => exact Or.inl (congrArg Except.error (Except.error.inj h))
  | ok a => exact Or.inr ⟨a, rfl, h⟩

/-- A list that fails at one of its items. -/
theorem except_mapM_eq_error {f : α → Except ε β} {e : ε} : ∀ {l : List α},
    l.mapM f = .error e → ∃ a ∈ l, f a = .error e
  | [], h => by cases h
  | a :: l, h => by
    rw [List.mapM_cons] at h
    rcases except_bind_eq_error h with h | ⟨b, -, h⟩
    · exact ⟨a, List.mem_cons_self, h⟩
    · rcases except_bind_eq_error h with h | ⟨m, -, h⟩
      · obtain ⟨a', ha', hf⟩ := except_mapM_eq_error h
        exact ⟨a', List.mem_cons_of_mem a ha', hf⟩
      · cases h

/-- A list that is computed item by item. -/
theorem except_mapM_eq_ok {f : α → Except ε β} : ∀ {l : List α} {m : List β},
    l.mapM f = .ok m → m.length = l.length ∧ ∀ b ∈ m, ∃ a ∈ l, f a = .ok b
  | [], m, h => by
    obtain rfl : m = [] := (Except.ok.inj h).symm
    exact ⟨rfl, fun _ hb => (by cases hb)⟩
  | a :: l, m, h => by
    rw [List.mapM_cons] at h
    obtain ⟨b, hb, h⟩ := except_bind_eq_ok h
    obtain ⟨m', hm', h⟩ := except_bind_eq_ok h
    obtain rfl := Except.ok.inj h
    obtain ⟨hlength, hmem⟩ := except_mapM_eq_ok hm'
    refine ⟨congrArg (· + 1) hlength, fun b' hb' => ?_⟩
    rcases List.mem_cons.mp hb' with rfl | hb'
    · exact ⟨a, List.mem_cons_self, hb⟩
    · obtain ⟨a', ha', hf⟩ := hmem b' hb'
      exact ⟨a', List.mem_cons_of_mem a ha', hf⟩

/-- Every item of a list that is computed has a value. -/
theorem except_mapM_ok_of_mem {f : α → Except ε β} : ∀ {l : List α} {m : List β},
    l.mapM f = .ok m → ∀ a ∈ l, ∃ b, f a = .ok b
  | [], m, _ => fun _ ha => (by cases ha)
  | a :: l, m, h => by
    rw [List.mapM_cons] at h
    obtain ⟨b, hb, h⟩ := except_bind_eq_ok h
    obtain ⟨m', hm', -⟩ := except_bind_eq_ok h
    exact List.forall_mem_cons.mpr ⟨⟨b, hb⟩, except_mapM_ok_of_mem hm'⟩

end Except

end Onceproof
