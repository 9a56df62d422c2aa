import Mathlib.Data.List.Basic
import Mathlib.Data.List.GetD

/-!
# FinHub.Lib.Base64

Base64 as `base64.b64encode` and `base64.b64decode` of the standard library do it.

Decoding is not strict: it skips what is not in the alphabet, and a padding that closes a group ends the input.

* `decode_encode`: what is encoded is decoded again.
* `encode_injective`, `clean_encode`: no two texts of bytes are encoded alike, and the text has no other characters.
-/

namespace FinHub.Base64

def alphabet : List Char := "ABCDEFGHIJKLMNOPQRSTUVWXYZabcdefghijklmnopqrstuvwxyz0123456789+/".toList

def digit (n : ℕ) : Char := alphabet.getD n '='

def valueOf (c : Char) : Option ℕ := alphabet.idxOf? c

/-- `b64encode`. -/
def encode : List UInt8 → List Char
  | [] => []
  | [a] => [digit (a.toNat / 4), digit (a.toNat % 4 * 16), '=', '=']
  | [a, b] => [digit (a.toNat / 4), digit (a.toNat % 4 * 16 + b.toNat / 16), digit (b.toNat % 16 * 4), '=']
  | a :: b :: c :: rest =>
    digit (a.toNat / 4) :: digit (a.toNat % 4 * 16 + b.toNat / 16) :: digit (b.toNat % 16 * 4 + c.toNat / 64) ::
      digit (c.toNat % 64) :: encode rest

/-- A digit after `quad` digits of a group, with the bits `left` over from them: the byte that it completes, and how
it goes on. -/
def push (quad left v : ℕ) : List UInt8 × ℕ × ℕ :=
  match quad with
  | 0 => ([], 1, v)
  | 1 => ([UInt8.ofNat (left * 4 + v / 16)], 2, v % 16)
  | 2 => ([UInt8.ofNat (left * 16 + v / 4)], 3, v % 4)
  | _ => ([UInt8.ofNat (left * 64 + v)], 0, 0)

def decodeFrom (quad left pads : ℕ) : List Char → Option (List UInt8)
  | [] => if quad = 0 then some [] else none
  | c :: cs =>
    if c = '=' then
      if 2 ≤ quad then if 4 ≤ quad + (pads + 1) then some [] else decodeFrom quad left (pads + 1) cs
      else decodeFrom quad left pads cs
    else
      match valueOf c with
      | none => decodeFrom quad left pads cs
      | some v =>
        let next := push quad left v
        (decodeFrom next.2.1 next.2.2 0 cs).map (next.1 ++ ·)

/-- `b64decode`. A text that is not of ASCII is refused. -/
def decode (cs : List Char) : Option (List UInt8) :=
  if cs.all fun c => decide (c.toNat < 128) then decodeFrom 0 0 0 cs else none

/-! ## Digits -/

theorem digit_facts : ∀ n : Fin 64, valueOf (digit n) = some n.val ∧ digit n ≠ '=' := by decide

theorem valueOf_digit {n : ℕ} (h : n < 64) : valueOf (digit n) = some n := (digit_facts ⟨n, h⟩).1

theorem digit_ne_pad {n : ℕ} (h : n < 64) : digit n ≠ '=' := (digit_facts ⟨n, h⟩).2

theorem digit_mem {n : ℕ} (h : n < 64) : digit n ∈ alphabet := by
  unfold digit
  rw [List.getD_eq_getElem _ _ (by exact h)]
  exact List.getElem_mem _

theorem decodeFrom_digit {n : ℕ} (h : n < 64) (quad left pads : ℕ) (cs : List Char) :
    decodeFrom quad left pads (digit n :: cs) =
      (decodeFrom (push quad left n).2.1 (push quad left n).2.2 0 cs).map ((push quad left n).1 ++ ·) := by
  rw [decodeFrom, if_neg (digit_ne_pad h), valueOf_digit h]

theorem decodeFrom_pad (left : ℕ) : decodeFrom 3 left 0 ['='] = some [] := rfl

theorem decodeFrom_pads (left : ℕ) : decodeFrom 2 left 0 ['=', '='] = some [] := rfl

/-- The text is of digits and padding. -/
theorem clean_encode (bytes : List UInt8) : ∀ c ∈ encode bytes, c ∈ '=' :: alphabet := by
  have hdigit : ∀ {n}, n < 64 → digit n ∈ '=' :: alphabet := fun h => List.mem_cons_of_mem _ (digit_mem h)
  have hpad : '=' ∈ '=' :: alphabet := List.mem_cons_self
  induction bytes using encode.induct with
  | case1 =>
    intro c hc
    cases hc
  | case2 a =>
    have ha := a.toNat_lt
    unfold encode
    simp only [List.forall_mem_cons]
    exact ⟨hdigit (by omega), hdigit (by omega), hpad, hpad, List.forall_mem_nil _⟩
  | case3 a b =>
    have ha := a.toNat_lt
    have hb := b.toNat_lt
    unfold encode
    simp only [List.forall_mem_cons]
    exact ⟨hdigit (by omega), hdigit (by omega), hdigit (by omega), hpad, List.forall_mem_nil _⟩
  | case4 a b c rest ih =>
    have ha := a.toNat_lt
    have hb := b.toNat_lt
    have hc := c.toNat_lt
    unfold encode
    rw [List.forall_mem_cons, List.forall_mem_cons, List.forall_mem_cons, List.forall_mem_cons]
    exact ⟨hdigit (by omega), hdigit (by omega), hdigit (by omega), hdigit (by omega), ih⟩

/-! ## Round trip -/

section

variable (a b c : UInt8)

theorem first_byte : UInt8.ofNat (a.toNat / 4 * 4 + (a.toNat % 4 * 16 + b.toNat / 16) / 16) = a := by
  have hb := b.toNat_lt
  have hsum : a.toNat / 4 * 4 + (a.toNat % 4 * 16 + b.toNat / 16) / 16 = a.toNat := by omega
  rw [hsum, UInt8.ofNat_toNat]

theorem second_byte :
    UInt8.ofNat ((a.toNat % 4 * 16 + b.toNat / 16) % 16 * 16 + (b.toNat % 16 * 4 + c.toNat / 64) / 4) = b := by
  have hb := b.toNat_lt
  have hc := c.toNat_lt
  have hsum : (a.toNat % 4 * 16 + b.toNat / 16) % 16 * 16 + (b.toNat % 16 * 4 + c.toNat / 64) / 4 = b.toNat := by omega
  rw [hsum, UInt8.ofNat_toNat]

theorem third_byte : UInt8.ofNat ((b.toNat % 16 * 4 + c.toNat / 64) % 4 * 64 + c.toNat % 64) = c := by
  have hc := c.toNat_lt
  have hsum : (b.toNat % 16 * 4 + c.toNat / 64) % 4 * 64 + c.toNat % 64 = c.toNat := by omega
  rw [hsum, UInt8.ofNat_toNat]

end

/-- A full group. -/
theorem decodeFrom_group (a b c : UInt8) (cs : List Char) :
    decodeFrom 0 0 0 (digit (a.toNat / 4) :: digit (a.toNat % 4 * 16 + b.toNat / 16) ::
      digit (b.toNat % 16 * 4 + c.toNat / 64) :: digit (c.toNat % 64) :: cs) =
      (decodeFrom 0 0 0 cs).map ([a, b, c] ++ ·) := by
  have ha := a.toNat_lt
  have hb := b.toNat_lt
  have hc := c.toNat_lt
  rw [decodeFrom_digit (by omega), decodeFrom_digit (by omega), decodeFrom_digit (by omega),
    decodeFrom_digit (by omega)]
  simp only [push, Option.map_map, Function.comp_def, List.nil_append, List.cons_append, first_byte, second_byte,
    third_byte]

theorem decodeFrom_encode (bytes : List UInt8) : decodeFrom 0 0 0 (encode bytes) = some bytes := by
  induction bytes using encode.induct with
  | case1 => rfl
  | case2 a =>
    have ha := a.toNat_lt
    have hfirst := first_byte a 0
    unfold encode
    rw [decodeFrom_digit (by omega), decodeFrom_digit (by omega)]
    simp only [push, decodeFrom_pads, Option.map_some, List.nil_append, List.append_nil]
    simpa using hfirst
  | case3 a b =>
    have ha := a.toNat_lt
    have hb := b.toNat_lt
    have hsecond := second_byte a b 0
    unfold encode
    rw [decodeFrom_digit (by omega), decodeFrom_digit (by omega), decodeFrom_digit (by omega)]
    simp only [push, decodeFrom_pad, Option.map_some, List.nil_append, first_byte, List.cons_append]
    simpa using hsecond
  | case4 a b c rest ih =>
    unfold encode
    rw [decodeFrom_group, ih]
    rfl

theorem ascii_alphabet : ∀ c ∈ '=' :: alphabet, c.toNat < 128 := by
  have hall : (('=' :: alphabet).all fun c => decide (c.toNat < 128)) = true := by decide
  intro c hc
  exact of_decide_eq_true (List.all_eq_true.mp hall c hc)

theorem decode_encode (bytes : List UInt8) : decode (encode bytes) = some bytes := by
  have hascii : ((encode bytes).all fun c => decide (c.toNat < 128)) = true := by
    rw [List.all_eq_true]
    intro c hc
    exact decide_eq_true (ascii_alphabet c (clean_encode bytes c hc))
  unfold decode
  rw [if_pos hascii, decodeFrom_encode]

theorem encode_injective : Function.Injective encode := by
  intro bytes bytes' h
  have hdecode := congrArg decode h
  rw [decode_encode, decode_encode] at hdecode
  exact Option.some_inj.mp hdecode

end FinHub.Base64
