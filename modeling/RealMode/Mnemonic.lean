/-
**Mnemonics.** The operations an instruction can name.
-/

namespace RealMode

/-- An operation; `immed` is the arithmetic group whose second byte chooses add, sub or cmp. -/
inductive Mnemonic
  | mov | add | sub | cmp | immed
  | jo | jno | jb | jnb | je | jne | jbe | jnbe
  | js | jns | jp | jnp | jl | jnl | jle | jnle
  | jcxz | loop | loopz | loopnz | jmp
  deriving DecidableEq

namespace Mnemonic

/-- Every operation. -/
def all : List Mnemonic :=
  [mov, add, sub, cmp, immed,
    jo, jno, jb, jnb, je, jne, jbe, jnbe, js, jns, jp, jnp, jl, jnl, jle, jnle,
    jcxz, loop, loopz, loopnz, jmp]

/-- The written name. -/
def name : Mnemonic → String
  | mov => "mov" | add => "add" | sub => "sub" | cmp => "cmp" | immed => "immed"
  | jo => "jo" | jno => "jno" | jb => "jb" | jnb => "jnb"
  | je => "je" | jne => "jne" | jbe => "jbe" | jnbe => "jnbe"
  | js => "js" | jns => "jns" | jp => "jp" | jnp => "jnp"
  | jl => "jl" | jnl => "jnl" | jle => "jle" | jnle => "jnle"
  | jcxz => "jcxz" | loop => "loop" | loopz => "loopz" | loopnz => "loopnz" | jmp => "jmp"

/-- The short conditional jumps: their one operand is a signed byte. -/
def isJump : Mnemonic → Bool
  | jo | jno | jb | jnb | je | jne | jbe | jnbe
  | js | jns | jp | jnp | jl | jnl | jle | jnle | jcxz => true
  | mov | add | sub | cmp | immed | loop | loopz | loopnz | jmp => false

theorem mem_all (m : Mnemonic) : m ∈ all := by
  cases m <;> decide

end Mnemonic

end RealMode
