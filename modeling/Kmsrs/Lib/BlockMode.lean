import Kmsrs.Lib.Rows

/-! Cipher block chaining over any block type: the mode needs only a
permutation with its inverse and a mask that undoes itself. -/

namespace Kmsrs.BlockMode

/-- A block permutation, its inverse, and the mask that chains blocks. -/
structure Scheme (B : Type*) where
  encrypt : B → B
  decrypt : B → B
  mask : B → B → B
  decrypt_encrypt : ∀ b, decrypt (encrypt b) = b
  encrypt_decrypt : ∀ b, encrypt (decrypt b) = b
  mask_mask : ∀ a b, mask (mask a b) b = a

variable {B : Type*} (C : Scheme B)

/-- Each block is masked with the ciphertext before it. -/
def cbcEncrypt (chain : B) : List B → List B
  | [] => []
  | b :: bs => C.encrypt (C.mask b chain) :: cbcEncrypt (C.encrypt (C.mask b chain)) bs

def cbcDecrypt (chain : B) : List B → List B
  | [] => []
  | c :: cs => C.mask (C.decrypt c) chain :: cbcDecrypt c cs

@[simp] theorem length_cbcEncrypt (chain : B) (bs : List B) :
    (cbcEncrypt C chain bs).length = bs.length := by
  induction bs generalizing chain with
  | nil => rfl
  | cons b bs ih => simp [cbcEncrypt, ih]

@[simp] theorem length_cbcDecrypt (chain : B) (cs : List B) :
    (cbcDecrypt C chain cs).length = cs.length := by
  induction cs generalizing chain with
  | nil => rfl
  | cons c cs ih => simp [cbcDecrypt, ih]

theorem cbcDecrypt_cbcEncrypt (chain : B) (bs : List B) :
    cbcDecrypt C chain (cbcEncrypt C chain bs) = bs := by
  induction bs generalizing chain with
  | nil => rfl
  | cons b bs ih => simp only [cbcEncrypt, cbcDecrypt, C.decrypt_encrypt, C.mask_mask, ih]

theorem cbcEncrypt_cbcDecrypt (chain : B) (cs : List B) :
    cbcEncrypt C chain (cbcDecrypt C chain cs) = cs := by
  induction cs generalizing chain with
  | nil => rfl
  | cons c cs ih => simp only [cbcEncrypt, cbcDecrypt, C.mask_mask, C.encrypt_decrypt, ih]

end Kmsrs.BlockMode
