import Onceproof.Crypto
import Mathlib.Data.Finmap

/-!
# Keyrings

A generation of the keyring: root keys by key id, one of which is current. The membership of
the current id is a field, so that `current_key` is total and no operation can retire the
current key.
-/

namespace Onceproof

/-- A generation of the keyring: what the file holds and what a `KeyRing` has in memory. -/
@[ext]
structure KeyRing where
  currentKid : Str
  keys : Finmap fun _ : Str => RootKey
  current_mem : currentKid ∈ keys
  deriving DecidableEq

namespace KeyRing

/-- `KeyRing.key_for`. -/
def keyFor (k : KeyRing) (kid : Str) : Option RootKey := k.keys.lookup kid

/-- The current key is among the keys. -/
theorem isSome_keyFor_currentKid (k : KeyRing) : (k.keyFor k.currentKid).isSome = true :=
  Finmap.lookup_isSome.mpr k.current_mem

/-- `KeyRing.current_key`. -/
def currentKey (k : KeyRing) : Str × RootKey :=
  (k.currentKid, (k.keyFor k.currentKid).get k.isSome_keyFor_currentKid)

theorem keyFor_currentKey (k : KeyRing) : k.keyFor k.currentKey.1 = some k.currentKey.2 :=
  (Option.some_get _).symm

/-- The keyring of `KeyRing.create`. -/
def created (kid : Str) (key : RootKey) : KeyRing where
  currentKid := kid
  keys := Finmap.singleton kid key
  current_mem := by simp

/-- The keyring after `KeyRing.rotate`. -/
def rotated (k : KeyRing) (kid : Str) (key : RootKey) : KeyRing where
  currentKid := kid
  keys := k.keys.insert kid key
  current_mem := by simp

/-- The keyring after `KeyRing.retire`. -/
def retired (k : KeyRing) (kid : Str) (h : kid ≠ k.currentKid) : KeyRing where
  currentKid := k.currentKid
  keys := k.keys.erase kid
  current_mem := by simpa using ⟨h.symm, k.current_mem⟩

@[simp]
theorem keyFor_created (kid kid' : Str) (key : RootKey) :
    (created kid key).keyFor kid' = if kid' = kid then some key else none := by
  unfold keyFor created
  split_ifs with h
  · rw [h]
    exact Finmap.lookup_singleton_eq
  · exact Finmap.lookup_eq_none.mpr (by simpa using h)

theorem keyFor_rotated (k : KeyRing) (kid kid' : Str) (key : RootKey) :
    (k.rotated kid key).keyFor kid' = if kid' = kid then some key else k.keyFor kid' := by
  unfold keyFor rotated
  split_ifs with h
  · rw [h]
    exact Finmap.lookup_insert _
  · exact Finmap.lookup_insert_of_ne _ h

theorem keyFor_retired (k : KeyRing) (kid kid' : Str) (h : kid ≠ k.currentKid) :
    (k.retired kid h).keyFor kid' = if kid' = kid then none else k.keyFor kid' := by
  unfold keyFor retired
  split_ifs with h'
  · rw [h']
    exact Finmap.lookup_erase _ _
  · exact Finmap.lookup_erase_ne h'

end KeyRing

end Onceproof
