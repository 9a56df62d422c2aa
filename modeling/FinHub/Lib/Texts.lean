import Mathlib.Data.List.DropRight

/-!
# FinHub.Lib.Texts

`str.strip` and `int` of the standard library, on lists of characters.

* `strip_strip`: a text that is stripped stays as it is.
-/

namespace FinHub.Texts

/-- The characters that `str.isspace` accepts. -/
def isSpace (c : Char) : Bool :=
  [(0x9, 0xd), (0x1c, 0x20), (0x85, 0x85), (0xa0, 0xa0), (0x1680, 0x1680), (0x2000, 0x200a), (0x2028, 0x2029),
    (0x202f, 0x202f), (0x205f, 0x205f), (0x3000, 0x3000)].any fun range =>
    decide (range.1 ≤ c.toNat) && decide (c.toNat ≤ range.2)

/-- `str.strip`. -/
def strip (cs : List Char) : List Char := (cs.dropWhile isSpace).rdropWhile isSpace

theorem strip_strip (cs : List Char) : strip (strip cs) = strip cs := by
  have hfront : (strip cs).dropWhile isSpace = strip cs := by
    unfold strip
    refine List.dropWhile_eq_self_iff.mpr fun hpos hspace => ?_
    have hinit := List.rdropWhile_prefix isSpace (cs.dropWhile isSpace)
    have hlong : 0 < (cs.dropWhile isSpace).length := hpos.trans_le hinit.length_le
    rw [hinit.getElem hpos] at hspace
    exact List.dropWhile_get_zero_not isSpace cs hlong hspace
  unfold strip at hfront ⊢
  rw [hfront]
  exact List.rdropWhile_idempotent isSpace _

/-- The digits of a number, which single underscores may group. No more than 4300 are read. -/
def parseDigits (cs : List Char) : Option ℕ :=
  let groups := cs.splitOn '_'
  if groups.all (fun g => !g.isEmpty && g.all Char.isDigit) && decide (groups.flatten.length ≤ 4300) then
    some (groups.flatten.foldl (fun n c => 10 * n + (c.toNat - 48)) 0)
  else none

/-- `int` of a text, with the digits of ASCII. -/
def parseInt (cs : List Char) : Option ℤ :=
  match strip cs with
  | '-' :: ds => (parseDigits ds).map fun n => -(n : ℤ)
  | '+' :: ds => (parseDigits ds).map Int.ofNat
  | ds => (parseDigits ds).map Int.ofNat

end FinHub.Texts
