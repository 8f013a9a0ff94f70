/-!
# Hexadecimal digits

* `Hex.lower`, `Hex.upper`   the digit of a number below 16, letters in either case;
* `Hex.value?`               the number of a digit, letters of either case.
-/

namespace RestQuery.Hex

def lower (n : Nat) : Char := Nat.digitChar n

def upper (n : Nat) : Char := Char.ofNat (if n < 10 then 48 + n else 55 + n)

def value? (c : Char) : Option Nat :=
  if '0' ≤ c ∧ c ≤ '9' then some (c.toNat - 48)
  else if 'a' ≤ c ∧ c ≤ 'f' then some (c.toNat - 87)
  else if 'A' ≤ c ∧ c ≤ 'F' then some (c.toNat - 55)
  else none

theorem value?_lower (n : Fin 16) : value? (lower n.val) = some n.val := by
  revert n; decide

theorem value?_upper (n : Fin 16) : value? (upper n.val) = some n.val := by
  revert n; decide

end RestQuery.Hex
