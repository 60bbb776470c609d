import BlockLang.Decimal.Real

/-! # Values

A variable has one of four kinds. An integer goes into a real variable as the
nearest real and into a boolean one as whether it is positive; otherwise kinds
must agree. Input text has to match the pattern of its kind.
-/
namespace BlockLang

inductive Kind where
  | int | real | bool | text
deriving DecidableEq

def Kind.name : Kind → String
  | .int => "int"
  | .real => "real"
  | .bool => "bool"
  | .text => "string"

def Kind.ofName? : String → Option Kind
  | "int" => some .int
  | "real" => some .real
  | "bool" => some .bool
  | "string" => some .text
  | _ => none

theorem Kind.ofName?_name (kind : Kind) : ofName? kind.name = some kind := by
  cases kind <;> rfl

inductive Value where
  | int (n : Int64)
  | real (x : Binary64)
  | bool (b : Bool)
  | text (s : String)
deriving DecidableEq

namespace Value

def kind : Value → Kind
  | .int _ => .int
  | .real _ => .real
  | .bool _ => .bool
  | .text _ => .text

def print : Value → String
  | .int n => toString n.toInt
  | .real x => x.text
  | .bool b => if b then "true" else "false"
  | .text s => s

/-- The value that a variable of kind `target` takes over. -/
def adapt? (target : Kind) : Value → Option Value
  | .int n =>
    match target with
    | .int => some (.int n)
    | .real => some (.real (Binary64.ofInt n.toInt))
    | .bool => some (.bool (0 < n))
    | .text => none
  | .real x => if target = .real then some (.real x) else none
  | .bool b => if target = .bool then some (.bool b) else none
  | .text s => if target = .text then some (.text s) else none

/-- The value of a kind that an input text stands for. -/
def ofInput? (target : Kind) (input : String) : Option Value :=
  match target with
  | .int =>
    if Numeral.isIntegerText input.toList then (Numeral.integer? input.toList).map .int else none
  | .real =>
    if Numeral.isRealText input.toList || Numeral.isIntegerText input.toList then
      (Binary64.ofText? input.toList).map .real
    else
      none
  | .bool =>
    if input = "true" then some (.bool true)
    else if input = "false" then some (.bool false)
    else none
  | .text => some (.text input)

theorem kind_of_adapt? {target : Kind} {value result : Value}
    (h : value.adapt? target = some result) : result.kind = target := by
  cases value <;> cases target <;> simp [adapt?] at h <;> subst h <;> rfl

theorem kind_of_ofInput? {target : Kind} {input : String} {result : Value}
    (h : ofInput? target input = some result) : result.kind = target := by
  cases target <;> simp only [ofInput?] at h
  · split at h
    · obtain ⟨n, -, rfl⟩ := Option.map_eq_some_iff.1 h
      rfl
    · cases h
  · split at h
    · obtain ⟨x, -, rfl⟩ := Option.map_eq_some_iff.1 h
      rfl
    · cases h
  · split at h
    · cases h
      rfl
    · split at h
      · cases h
        rfl
      · cases h
  · cases h
    rfl

end Value
end BlockLang
