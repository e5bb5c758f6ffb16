import Mathlib.Tactic.Ring

/-! Numbers as bytes, the highest first. -/
namespace PgCatalog.Library.BigEndian

def number (bytes : List UInt8) : Nat := bytes.foldl (fun n byte => 256 * n + byte.toNat) 0

/-- The last `width` bytes of a number. -/
def bytesOf : Nat → Nat → List UInt8
  | 0, _ => []
  | width + 1, n => UInt8.ofNat (n / 256 ^ width) :: bytesOf width (n % 256 ^ width)

theorem foldl_add (bytes : List UInt8) (start : Nat) :
    bytes.foldl (fun n byte => 256 * n + byte.toNat) start =
      start * 256 ^ bytes.length + number bytes := by
  unfold number
  induction bytes generalizing start with
  | nil => simp
  | cons byte rest ih =>
    rw [List.foldl_cons, List.foldl_cons, ih, ih (256 * 0 + byte.toNat), List.length_cons, pow_succ]
    ring

theorem number_cons (byte : UInt8) (rest : List UInt8) :
    number (byte :: rest) = byte.toNat * 256 ^ rest.length + number rest := by
  conv_lhs => rw [number, List.foldl_cons, foldl_add]
  rw [Nat.mul_zero, Nat.zero_add]

theorem number_lt (bytes : List UInt8) : number bytes < 256 ^ bytes.length := by
  induction bytes with
  | nil => exact Nat.one_pos
  | cons byte rest ih =>
    have small : byte.toNat + 1 ≤ 256 := byte.toNat_lt
    have grown := Nat.mul_le_mul_right (256 ^ rest.length) small
    rw [number_cons, List.length_cons, pow_succ, Nat.mul_comm (256 ^ rest.length)]
    rw [Nat.add_mul, Nat.one_mul] at grown
    omega

/-- Reading bytes loses none of them. -/
theorem bytesOf_number (bytes : List UInt8) : bytesOf bytes.length (number bytes) = bytes := by
  induction bytes with
  | nil => rfl
  | cons byte rest ih =>
    have below := number_lt rest
    have high : (byte.toNat * 256 ^ rest.length + number rest) / 256 ^ rest.length =
        byte.toNat := by
      rw [Nat.mul_comm, Nat.mul_add_div (Nat.pow_pos (by decide)), Nat.div_eq_of_lt below]
      exact Nat.add_zero _
    have low : (byte.toNat * 256 ^ rest.length + number rest) % 256 ^ rest.length =
        number rest := by
      rw [Nat.mul_comm, Nat.mul_add_mod, Nat.mod_eq_of_lt below]
    rw [List.length_cons, bytesOf, number_cons, high, low, ih, UInt8.ofNat_toNat]

end PgCatalog.Library.BigEndian
