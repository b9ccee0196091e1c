/-!
Contract: the sizes that kernels receive.

Owns: the largest size a kernel handles, the reading of a 64-bit size as a
signed number, least powers of two and rounding to a multiple.

Sizes are natural numbers. A size that is stored in a machine word is reduced by
`Size.word`; a product or sum that cannot leave the word is written without it.
-/

set_option autoImplicit false

namespace KernelTuner.Size

/-- Largest size, index or work-item count of a kernel: sizes are passed as
32-bit unsigned integers. -/
def kernelLimit : Nat := 0xFFFFFFFF

/-- Number of values of a machine word. -/
def wordCount : Nat := 0x10000000000000000

/-- What a machine word keeps of `value`. -/
def word (value : Nat) : Nat := value % wordCount

/-- A machine word read as a two's-complement number. -/
def signed (value : Nat) : Int := Int.bmod value wordCount

/-- Least power of two that is not below `value`. -/
def leastPowerOfTwo (value : Nat) : Nat :=
  if value ≤ 1 then 1 else Nat.pow 2 (Nat.log2 (value - 1) + 1)

/-- Least multiple of `multiple` that is not below `value`. -/
def roundUp (value multiple : Nat) : Nat :=
  (value / multiple + if value % multiple = 0 then 0 else 1) * multiple

theorem signed_eq_self {value : Nat} (small : 2 * value < wordCount) : signed value = value := by
  unfold wordCount at small
  unfold signed wordCount
  rw [Int.bmod_eq_of_le_mul_two] <;> omega

theorem word_eq_self {value : Nat} (small : value < wordCount) : word value = value :=
  Nat.mod_eq_of_lt small

end KernelTuner.Size
