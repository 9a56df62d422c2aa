import FinHub.Lib.Base64
import FinHub.Lib.Texts

/-!
# FinHub.Profiles.Passwords

The password hashes of `services/profile_svc.py`.

The key derivation is a parameter. `verifyPassword_hashPassword` says what a stored hash is good for: it accepts
the passwords with the key of the one it was made from.
-/

namespace FinHub.ProfileSvc

open Base64 Texts

/-- `hashlib.pbkdf2_hmac` with SHA-256: the key of a password, a salt and a number of iterations. -/
abbrev Pbkdf2 := String → List UInt8 → ℕ → List UInt8

def pbkdf2Iterations : ℕ := 600000

section

variable (pbkdf2 : Pbkdf2)

/-- `_hash_password`, with the salt that was drawn. -/
def hashPassword (password : String) (salt : List UInt8) : String :=
  String.ofList <| ['$'].intercalate
    ["pbkdf2_sha256".toList, (toString pbkdf2Iterations).toList, encode salt,
      encode (pbkdf2 password salt pbkdf2Iterations)]

/-- The four fields of a hash against a password. Whatever the standard library refuses is not accepted. -/
def acceptsFields (password : String) : List (List Char) → Bool
  | [algo, iterations, salt_b64, hash_b64] =>
    if algo ≠ "pbkdf2_sha256".toList then false
    else
      match decode salt_b64, parseInt iterations with
      | some salt, some n =>
        if 1 ≤ n ∧ n ≤ 2147483647 then encode (pbkdf2 password salt n.toNat) == hash_b64 else false
      | _, _ => false
  | _ => false

/-- `_verify_password`. -/
def verifyPassword (password : String) : Option String → Bool
  | none => false
  | some stored => if stored = "" then false else acceptsFields pbkdf2 password (stored.toList.splitOn '$')

end

theorem no_dollar (bytes : List UInt8) : '$' ∉ encode bytes := fun h =>
  absurd (clean_encode bytes '$' h) (by decide)

theorem splitOn_hashPassword (pbkdf2 : Pbkdf2) (password : String) (salt : List UInt8) :
    (hashPassword pbkdf2 password salt).toList.splitOn '$' =
      ["pbkdf2_sha256".toList, (toString pbkdf2Iterations).toList, encode salt,
        encode (pbkdf2 password salt pbkdf2Iterations)] := by
  unfold hashPassword
  rw [String.toList_ofList]
  refine List.splitOn_intercalate '$' ?_ (List.cons_ne_nil _ _)
  intro field hfield
  simp only [List.mem_cons, List.not_mem_nil, or_false] at hfield
  rcases hfield with rfl | rfl | rfl | rfl
  · decide
  · decide
  · exact no_dollar salt
  · exact no_dollar _

/-- A stored hash accepts the passwords with the same key under its salt, and no others. -/
theorem verifyPassword_hashPassword (pbkdf2 : Pbkdf2) (password password' : String) (salt : List UInt8) :
    verifyPassword pbkdf2 password' (some (hashPassword pbkdf2 password salt)) = true ↔
      pbkdf2 password' salt pbkdf2Iterations = pbkdf2 password salt pbkdf2Iterations := by
  have hsplit := splitOn_hashPassword pbkdf2 password salt
  have hne : hashPassword pbkdf2 password salt ≠ "" := by
    intro hempty
    rw [hempty] at hsplit
    exact absurd hsplit (by simp)
  have hint : parseInt (toString pbkdf2Iterations).toList = some (pbkdf2Iterations : ℤ) := by decide
  unfold verifyPassword
  dsimp only
  rw [if_neg hne, hsplit]
  unfold acceptsFields
  dsimp only
  rw [if_neg (not_not.mpr rfl), decode_encode, hint]
  dsimp only
  rw [if_pos (by decide), beq_iff_eq, encode_injective.eq_iff, Int.toNat_natCast]

end FinHub.ProfileSvc
