import Mathlib.Data.List.Basic

/-! A stream cipher chained in both directions: a plain symbol is mixed with a mask that
depends on its place and on the mixed symbol before it, and what comes out with a mask
that depends on its place and on the cipher symbol before it. Mixing twice with one mask
is the identity, whatever the masks are. -/
namespace NewNameAuction.ChainCipher

section Chain
variable {α : Type*} (mix : α → α → α) (plainMask cipherMask : Nat → α → α)

/-- The cipher symbols of some plain symbols, the first of them at place `i`. -/
def encipher : Nat → α → α → List α → List α
  | _, _, _, [] => []
  | i, lastE, lastP, symbol :: rest =>
    let nowP := mix symbol (plainMask i lastP)
    let nowE := mix nowP (cipherMask i lastE)
    nowE :: encipher (i + 1) nowE nowP rest

/-- The plain symbols of some cipher symbols. -/
def decipher : Nat → α → α → List α → List α
  | _, _, _, [] => []
  | i, lastE, lastP, symbol :: rest =>
    let nowP := mix symbol (cipherMask i lastE)
    mix nowP (plainMask i lastP) :: decipher (i + 1) symbol nowP rest

@[simp] theorem length_encipher (i : Nat) (lastE lastP : α) (plain : List α) :
    (encipher mix plainMask cipherMask i lastE lastP plain).length = plain.length := by
  induction plain generalizing i lastE lastP with
  | nil => rfl
  | cons symbol rest ih =>
    simp only [encipher, List.length_cons]
    rw [ih]

@[simp] theorem length_decipher (i : Nat) (lastE lastP : α) (coded : List α) :
    (decipher mix plainMask cipherMask i lastE lastP coded).length = coded.length := by
  induction coded generalizing i lastE lastP with
  | nil => rfl
  | cons symbol rest ih =>
    simp only [decipher, List.length_cons]
    rw [ih]

variable {mix} (undo : ∀ a b, mix (mix a b) b = a)
include undo

/-- What was enciphered is deciphered again. The two chains run through the same mixed
symbols, so the rest starts from the same ones. -/
theorem decipher_encipher (i : Nat) (lastE lastP : α) (plain : List α) :
    decipher mix plainMask cipherMask i lastE lastP
      (encipher mix plainMask cipherMask i lastE lastP plain) = plain := by
  induction plain generalizing i lastE lastP with
  | nil => rfl
  | cons symbol rest ih =>
    simp only [encipher, decipher, undo]
    rw [ih]

theorem encipher_decipher (i : Nat) (lastE lastP : α) (coded : List α) :
    encipher mix plainMask cipherMask i lastE lastP
      (decipher mix plainMask cipherMask i lastE lastP coded) = coded := by
  induction coded generalizing i lastE lastP with
  | nil => rfl
  | cons symbol rest ih =>
    simp only [encipher, decipher, undo]
    rw [ih]

end Chain

end NewNameAuction.ChainCipher
