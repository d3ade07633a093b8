import K6Rs.Library.Text

/-! Which responses of a request are expected: the ranges that a script gives, and what is read of
them. -/

namespace K6Rs

/-- A property of a script's object: an integral number, or anything else. -/
inductive JsField where
  | integer (n : ℤ)
  | other
  deriving DecidableEq

/-- An argument of `expectedStatuses`, by its type. -/
inductive StatusArg where
  | number (n : JsField)
  | object (min max : JsField)
  | other

structure StatusSpec where
  min : ℤ
  max : ℤ

def argumentNumber (i : ℕ) : Str := Nat.toDigits 10 (i + 1)

/-- The specification for the argument at index `i`. -/
def statusSpec (i : ℕ) : StatusArg → Except Str StatusSpec
  | .number (.integer n) => .ok ⟨n, n⟩
  | .object (.integer min) (.integer max) => .ok ⟨min, max⟩
  | .object _ _ =>
      .error ("both min and max need to be integers for argument number ".toList ++
        argumentNumber i)
  | _ =>
      .error ("argument number ".toList ++ argumentNumber i ++
        " to expectedStatuses was neither an integer nor an object like \x7bmin:100, max:329\x7d".toList)

def statusSpecsFrom (i : ℕ) : List StatusArg → Except Str (List StatusSpec)
  | [] => .ok []
  | arg :: args => do
      let spec ← statusSpec i arg
      let specs ← statusSpecsFrom (i + 1) args
      return spec :: specs

def expectedStatuses (args : List StatusArg) : Except Str (List StatusSpec) :=
  if args.isEmpty then .error "no arguments".toList else statusSpecsFrom 0 args

/-- An element of the array of specifications, as the engine reads it. -/
inductive SpecValue where
  | object (min max : JsField)
  | other

/-- What is set as a response callback. -/
inductive CallbackValue where
  | null
  /-- An object, with its `__expectedStatuses` if that is an array. -/
  | object (specs : Option (List SpecValue))
  | other

/-- The object that `expectedStatuses` returns. -/
def callbackOf (specs : List StatusSpec) : CallbackValue :=
  .object (some (specs.map fun spec => .object (.integer spec.min) (.integer spec.max)))

inductive ResponseCallback where
  | default
  | disabled
  | expectedStatuses (specs : List (ℕ × ℕ))

/-- `getU16` reads a property as a `u16`. -/
def readSpec (getU16 : JsField → Option ℕ) : SpecValue → Option (ℕ × ℕ)
  | .other => none
  | .object min max =>
      match getU16 min with
      | none => none
      | some min =>
          match getU16 max with
          | none => none
          | some max => some (min, max)

def parseResponseCallback (getU16 : JsField → Option ℕ) : CallbackValue → ResponseCallback
  | .null => .disabled
  | .other => .default
  | .object none => .default
  | .object (some specsArray) =>
      let specs := specsArray.filterMap (readSpec getU16)
      if specs.isEmpty then .default else .expectedStatuses specs

def ResponseCallback.expected (status : ℕ) : ResponseCallback → Option Bool
  | .disabled => none
  | .default => some (200 ≤ status && status ≤ 399)
  | .expectedStatuses specs => some (specs.any fun spec => spec.1 ≤ status && status ≤ spec.2)

end K6Rs
