import Onceproof.KeyringFile

/-!
# Keyring files reload

The parser accepts a value only as a well-formed generation, refuses every other value with a
`ValueError`, and reads back the payload that the writer makes of a generation. A generation
stays of this kind through rotations and retirements, so whatever is built from a loaded keyring
reloads as it was.
-/

namespace Onceproof

/-- The generations that `rotate` and `retire` build, one after the other, from a loaded one. -/
inductive KeyRing.Built (k₀ : KeyRing) : KeyRing → Prop
  | loaded : Built k₀ k₀
  | rotated {k : KeyRing} (before : Built k₀ k) (kidBytes : Bytes) (key : RootKey) :
      Built k₀ (k.rotated (lit "hk_" ++ hexlify kidBytes) key)
  | retired {k : KeyRing} {kid : Str} (before : Built k₀ k) (old : kid ≠ k.currentKid) :
      Built k₀ (k.retired kid old)

variable {k₀ k : KeyRing}

/-- The ids stay well formed. -/
theorem KeyRing.Built.prefixed (h : k₀.Built k) (hk₀ : k₀.Prefixed) : k.Prefixed := by
  induction h with
  | loaded => exact hk₀
  | rotated before kidBytes key ih =>
    intro kid hkid
    rcases Finmap.mem_insert.mp hkid with rfl | hkid
    · exact (KeyRing.isKid_hexlify kidBytes).1
    · exact ih kid hkid
  | retired before old ih =>
    intro kid hkid
    exact ih kid (Finmap.mem_erase.mp hkid).2

theorem KeyRing.Built.wellNamed (h : k₀.Built k) (hk₀ : k₀.WellNamed) : k.WellNamed := by
  induction h with
  | loaded => exact hk₀
  | rotated before kidBytes key ih => exact ih.rotated (KeyRing.isKid_hexlify kidBytes)
  | retired before old ih => exact ih.retired old

/-- **Keyring files round-trip.** A value that is parsed yields a generation whose current id is
among its keys, whose ids begin with `hk_` and whose keys have 32 bytes; that generation, and
every one built from it, is what parsing its payload yields. Every other value raises a
`ValueError`. A generation that was loaded from a file is also read back through the text of the
file, as is every generation built from it. -/
theorem keyring_files_round_trip :
    (∀ v : Json, (∃ k, KeyRing.parsePayload v = .ok k ∧ k.currentKid ∈ k.keys ∧
        (∀ kid ∈ k.keys, lit "hk_" <+: kid) ∧
        (∀ kid key, k.keyFor kid = some key → key.val.length = 32) ∧
        ∀ k', k.Built k' → KeyRing.parsePayload k'.serializedPayload = .ok k') ∨
      ∃ message, KeyRing.parsePayload v = .error (.valueError message)) ∧
    ∀ (document : Json.Document) (k : KeyRing), KeyRing.readPayload document.value = .ok k →
      ∀ k', k.Built k' →
        KeyRing.readPayload (Json.Document.written k'.serializedPayload).value = .ok k' := by
  refine ⟨fun v => ?_, fun document k hread k' hbuilt => ?_⟩
  · cases hparse : KeyRing.parsePayload v with
    | error e =>
      obtain ⟨message, rfl⟩ := KeyRing.parsePayload_error hparse
      exact Or.inr ⟨message, rfl⟩
    | ok k =>
      have hprefixed : k.Prefixed := KeyRing.isKid_of_parsePayload hparse
      refine Or.inl ⟨k, rfl, k.current_mem, fun kid hkid => ?_, fun _ key _ => key.property, ?_⟩
      · exact List.isPrefixOf_iff_prefix.mp (hprefixed kid hkid)
      · intro k' hbuilt
        exact KeyRing.parsePayload_serializedPayload (hbuilt.prefixed hprefixed)
  · have hnamed : k.WellNamed := KeyRing.wellNamed_of_readPayload hread
    exact KeyRing.readPayload_persist_serializedPayload (hbuilt.wellNamed hnamed)

end Onceproof
