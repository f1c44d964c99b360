import Trampoline.Error
import Trampoline.Text.Lines

/-!
# Signatures

A signature lists the types of the arguments and of the native return registers.  It is written as a
letter per type: `(IJD)J` takes three arguments and returns one value, `()V` returns nothing, and a
result spread over several registers is a bracketed list, as in `(I)[JJ]`.

* `Signature.make` keeps out the types that native code cannot handle, and the type `Signature`
  keeps them out for good: its fields carry the proof.
* `Signature.read` takes a text apart; `Signature.chars` writes the one text with the fewest
  brackets.  An empty list and a list of one type may be bracketed when read, but never are when
  written.
-/

set_option autoImplicit false

namespace Trampoline

/-- The argument types, and the types of the return registers in order. -/
structure Signature where
  args : List ValueType
  returns : List ValueType
  args_native : ∀ t ∈ args, t.isNative = true
  returns_native : ∀ t ∈ returns, t.isNative = true
  deriving DecidableEq

namespace Signature

/-- The signature with these types, unless one of them is not for native code.  A bad argument is
reported before a bad result. -/
def make (args returns : List ValueType) : Except Error Signature :=
  match ha : args.find? (!·.isNative), hr : returns.find? (!·.isNative) with
  | some t, _ => .error (.argumentType t)
  | none, some t => .error (.returnType t)
  | none, none => .ok ⟨args, returns, by simpa using ha, by simpa using hr⟩

theorem make_args_returns (s : Signature) : make s.args s.returns = .ok s := by
  have ha : s.args.find? (!·.isNative) = none := by simpa using s.args_native
  have hr : s.returns.find? (!·.isNative) = none := by simpa using s.returns_native
  unfold make
  split <;> simp_all

/-! ## Reading -/

/-- A type for each letter. -/
def readTypes : List Char → Except SignatureFlaw (List ValueType)
  | [] => .ok []
  | c :: rest =>
    match ValueType.ofLetter? c with
    | none => .error (.unknownType c)
    | some t => (readTypes rest).map (t :: ·)

theorem readTypes_letters (ts : List ValueType) : readTypes (ts.map ValueType.letter) = .ok ts := by
  induction ts with
  | nil => rfl
  | cons t rest ih => simp [readTypes, ih, Except.map]

theorem eq_letters_of_readTypes {cs : List Char} {ts : List ValueType}
    (h : readTypes cs = .ok ts) : cs = ts.map ValueType.letter := by
  induction cs generalizing ts with
  | nil => cases h; rfl
  | cons c rest ih =>
    rw [readTypes] at h
    split at h
    · cases h
    · rename_i t ht
      cases hr : readTypes rest with
      | error e => rw [hr] at h; cases h
      | ok us =>
        rw [hr] at h
        cases h
        simp [ih hr, ValueType.eq_letter_of_ofLetter? ht]

/-- The types of the return registers: a bracketed list, or a single type. -/
def readReturns : List Char → Except SignatureFlaw (List ValueType)
  | '[' :: group =>
    if group.getLast? = some ']' then readTypes group.dropLast else .error .unterminatedList
  | cs =>
    match readTypes cs with
    | .error flaw => .error flaw
    | .ok [.void] => .ok []
    | .ok [t] => .ok [t]
    | .ok _ => .error .notSingleReturn

/-- The argument and return types that a text without blanks around it lists. -/
def readLists : List Char → Except SignatureFlaw (List ValueType × List ValueType)
  | '(' :: rest =>
    match Text.cut ')' rest with
    | none => .error .noClosing
    | some (args, returns) => do
      let args ← readTypes args
      let returns ← readReturns returns
      return (args, returns)
  | _ => .error .noOpening

/-- The signature that a text stands for. -/
def read (text : String) : Except Error Signature :=
  match readLists (Text.trim text.toList) with
  | .error flaw => .error (.signatureText text flaw)
  | .ok (args, returns) => make args returns

/-! ## Writing -/

/-- The letters of the return types, in brackets unless there is exactly one; `V` for none. -/
def returnChars : List ValueType → List Char
  | [] => ['V']
  | [t] => [t.letter]
  | ts => '[' :: ts.map ValueType.letter ++ [']']

/-- The written form of a signature. -/
def chars (s : Signature) : List Char :=
  '(' :: s.args.map ValueType.letter ++ ')' :: returnChars s.returns

instance : ToString Signature := ⟨fun s => String.ofList s.chars⟩

/-! ## Results -/

/-- The result type of the managed method as the method sees it: results that span several registers
travel through memory, and such a method returns nothing itself. -/
def resultType (s : Signature) : ValueType :=
  match s.returns with
  | [t] => t
  | _ => .void

/-- The bytes that one return register takes in a return buffer: a whole vector register if the
value is a floating-point number. -/
def bufferWidth (t : ValueType) : Nat := if t.isFloating then 16 else 8

/-- The bytes that all return registers take in a return buffer. -/
def bufferBytes (s : Signature) : Nat := total bufferWidth s.returns

end Signature

end Trampoline
