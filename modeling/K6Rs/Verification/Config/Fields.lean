import K6Rs.Verification.Config.Durations

/-! # The fields of the options

Every getter of a number takes its last 32 bits, the getters with a default take it for a value they
cannot read, and a duration saturates. What the script wrote is kept exactly when none of this
happens. -/

namespace K6Rs

open FloatLit (isDigit digits)
open Double (roundoff)

/-! ## Durations -/

section

variable {s : Str} {nanos : ℕ}

end

/-! ## Values -/

section

variable {obj : List (Str × Json)} {key : Str} {v : Json} {n m nanos : ℕ}

/-- The member that a map of the members has under the name. -/
def named (members : List (Str × Json)) (name : Str) : Option Json := members.reverse.lookup name

end

section Example

def vusFor (n : ℕ) : List (Str × Json) :=
  [("vus".toList, .number (.posInt n)), ("duration".toList, .string "1m30s".toList)]

def parsedVus (n : ℕ) : Option (ℕ × ℕ) :=
  (parseOptions ⟨id, fun _ => []⟩ (.object (vusFor n))).toOption.map fun config =>
    (config.vus, config.duration)

end Example

end K6Rs
