import Graphrun.Lib.Outcome
import Mathlib.Algebra.Group.Int.Defs
import Mathlib.Algebra.Group.Nat.Defs

/-!
# Identities, errors and payload values

The leaves of the data model: branded identities (`ids.rs`), refusals (`error.rs`),
payload values with JSON Pointer projection (`value.rs`) and the JSON documents of the
catalog. Machine integers are natural numbers; the places where the program saturates or
wraps say so (`satAdd`, `wrap32`). A `BTreeMap` is the list of its entries in key order.
-/

namespace Graphrun

open Lib

/-! ## Machine arithmetic -/

/-- The largest `u64`. -/
def u64Max : Nat := 2 ^ 64 - 1

/-- `u64::saturating_add`. -/
def satAdd (a b : Nat) : Nat := min (a + b) u64Max

/-- `u64::saturating_mul`. -/
def satMul (a b : Nat) : Nat := min (a * b) u64Max

/-- The `as u32` conversion. -/
def wrap32 (a : Nat) : Nat := a % 2 ^ 32

/-- The largest `i64`. -/
def i64Max : Int := 2 ^ 63 - 1

/-! ## Identities -/

/-- The brands of 16-byte identities. -/
inductive IdKind where
  | run
  | scope
  | activation
  | workerSession
  | wait
  | command
  | event
  | effectKey
  deriving DecidableEq, Repr

/-- A branded identity; its 16 bytes are read as one number, most significant byte first. -/
structure Id (k : IdKind) where
  bytes : Nat
  deriving DecidableEq, Repr

abbrev RunId := Id .run
abbrev ScopeId := Id .scope
abbrev ActivationId := Id .activation
abbrev WorkerSessionId := Id .workerSession
abbrev WaitId := Id .wait
abbrev CommandId := Id .command
abbrev EventId := Id .event
abbrev EffectKey := Id .effectKey

/-- The `n` lowest hexadecimal digits of a number, most significant first. -/
def hexDigits : Nat → Nat → List Char
  | 0, _ => []
  | n + 1, b => hexDigits n (b / 16) ++ [Nat.digitChar (b % 16)]

/-- The 32 hexadecimal digits of an identity. -/
def Id.toHex {k : IdKind} (id : Id k) : String := String.ofList (hexDigits 32 id.bytes)

/-- What a claim or an obligation is executed for. -/
inductive ExecutionRole where
  | forward
  | compensation
  | reconciliation
  deriving DecidableEq, Repr

abbrev NodeKey := String

/-- Name and version of an activity. -/
structure ActivityKey where
  name : String
  version : Nat
  deriving DecidableEq, Repr

def ActivityKey.asStableName (key : ActivityKey) : String := s!"{key.name}/v{key.version}"

/-- Name and version of a schema. -/
structure SchemaKey where
  name : String
  version : Nat
  deriving DecidableEq, Repr

def SchemaKey.asStableName (key : SchemaKey) : String := s!"{key.name}/v{key.version}"

def validAsciiName (raw : String) : Bool :=
  let chars := raw.toList
  !chars.isEmpty && decide (raw.utf8ByteSize ≤ 64) &&
    chars.all fun ch => ch.isAlphanum || ch == '_' || ch == '.' || ch == '-'

/-! ## Refusals -/

inductive ErrorKind where
  | invalidArgument
  | alreadyExists
  | failedPrecondition
  | unauthenticated
  | permissionDenied
  | notFound
  | unavailable
  | resourceExhausted
  | deadlineExceeded
  deriving DecidableEq, Repr

structure Error where
  kind : ErrorKind
  message : String
  path : Option String := none
  line : Option Nat := none
  column : Option Nat := none
  deriving DecidableEq, Repr

/-- How a call ends without a result: it is refused with an error, or it panics (a failed
`unwrap` or `expect`, an overflow that is checked). -/
inductive Fault where
  | error (e : Error)
  | panicked
  deriving DecidableEq, Repr

abbrev Result := Except Fault

/-- `Error::new`. -/
def refusal (kind : ErrorKind) (message : String) : Fault := .error { kind, message }

/-- `Error::invalid`. -/
def invalid (message : String) : Fault := refusal .invalidArgument message

/-- `Error::new(ErrorKind::FailedPrecondition, ..)`. -/
def failedPrecondition (message : String) : Fault := refusal .failedPrecondition message

/-! ## Values -/

/-- A payload value. Integers are the `i64` range of `Int`. -/
inductive Value where
  | null
  | bool (b : Bool)
  | int (i : Int)
  | string (s : String)
  | array (items : List Value)
  | object (fields : List (String × Value))
  deriving Repr

mutual
/-- Equality of values is decided by structural comparison. -/
def Value.decEq : (a b : Value) → Decidable (a = b)
  | .null, .null => isTrue rfl
  | .bool a, .bool b => decidable_of_iff (a = b) (by simp)
  | .int a, .int b => decidable_of_iff (a = b) (by simp)
  | .string a, .string b => decidable_of_iff (a = b) (by simp)
  | .array a, .array b =>
    match Value.decEqItems a b with
    | isTrue h => isTrue (by rw [h])
    | isFalse h => isFalse (by simpa using h)
  | .object a, .object b =>
    match Value.decEqFields a b with
    | isTrue h => isTrue (by rw [h])
    | isFalse h => isFalse (by simpa using h)
  | .null, .bool _ | .null, .int _ | .null, .string _ | .null, .array _ | .null, .object _ =>
    isFalse (by simp)
  | .bool _, .null | .bool _, .int _ | .bool _, .string _ | .bool _, .array _
  | .bool _, .object _ => isFalse (by simp)
  | .int _, .null | .int _, .bool _ | .int _, .string _ | .int _, .array _ | .int _, .object _ =>
    isFalse (by simp)
  | .string _, .null | .string _, .bool _ | .string _, .int _ | .string _, .array _
  | .string _, .object _ => isFalse (by simp)
  | .array _, .null | .array _, .bool _ | .array _, .int _ | .array _, .string _
  | .array _, .object _ => isFalse (by simp)
  | .object _, .null | .object _, .bool _ | .object _, .int _ | .object _, .string _
  | .object _, .array _ => isFalse (by simp)
def Value.decEqItems : (a b : List Value) → Decidable (a = b)
  | [], [] => isTrue rfl
  | [], _ :: _ => isFalse (by simp)
  | _ :: _, [] => isFalse (by simp)
  | a :: as, b :: bs =>
    match Value.decEq a b, Value.decEqItems as bs with
    | isTrue h, isTrue hs => isTrue (by rw [h, hs])
    | isFalse h, _ => isFalse (by simp [h])
    | _, isFalse h => isFalse (by simp [h])
def Value.decEqFields : (a b : List (String × Value)) → Decidable (a = b)
  | [], [] => isTrue rfl
  | [], _ :: _ => isFalse (by simp)
  | _ :: _, [] => isFalse (by simp)
  | (k, a) :: as, (l, b) :: bs =>
    if hk : k = l then
      match Value.decEq a b, Value.decEqFields as bs with
      | isTrue h, isTrue hs => isTrue (by rw [hk, h, hs])
      | isFalse h, _ => isFalse (by simp [h])
      | _, isFalse h => isFalse (by simp [h])
    else isFalse (by simp [hk])
end

instance : DecidableEq Value := Value.decEq

/-! ## Ordered maps -/

section OrderedMap

variable {κ α : Type} [DecidableEq κ]

/-- `BTreeMap::get`. -/
def mapGet (m : List (κ × α)) (k : κ) : Option α :=
  (m.find? fun e => e.1 = k).map (·.2)

/-- `BTreeMap::insert`: the entry takes its place in key order. -/
def mapInsert [LT κ] [DecidableLT κ] (k : κ) (v : α) : List (κ × α) → List (κ × α)
  | [] => [(k, v)]
  | (k', v') :: rest =>
    if k < k' then (k, v) :: (k', v') :: rest
    else if k = k' then (k, v) :: rest
    else (k', v') :: mapInsert k v rest

theorem mem_keys_of_mapGet {m : List (κ × α)} {k : κ} {v : α} (h : mapGet m k = some v) :
    k ∈ m.map (·.1) := by
  unfold mapGet at h
  obtain ⟨e, he, -⟩ := Option.map_eq_some_iff.mp h
  have hkey : e.1 = k := by simpa using List.find?_some he
  exact List.mem_map.mpr ⟨e, List.mem_of_find?_eq_some he, hkey⟩

theorem mem_of_mem_mapInsert [LT κ] [DecidableLT κ] {k : κ} {v : α} {e : κ × α} {m : List (κ × α)}
    (h : e ∈ mapInsert k v m) : e = (k, v) ∨ e ∈ m := by
  induction m with
  | nil => simpa [mapInsert] using h
  | cons first rest ih =>
    unfold mapInsert at h
    split at h
    · simpa using h
    · split at h
      · rcases List.mem_cons.mp h with heq | hrest
        · exact .inl heq
        · exact .inr (List.mem_cons_of_mem _ hrest)
      · rcases List.mem_cons.mp h with heq | hrest
        · exact .inr (heq ▸ List.mem_cons_self)
        · exact (ih hrest).imp_right (List.mem_cons_of_mem _)

theorem keys_mapInsert [LT κ] [DecidableLT κ] {k : κ} {v : α} :
    ∀ {m : List (κ × α)}, mapGet m k = none →
      k ∉ m.map (·.1) ∧ ((mapInsert k v m).map (·.1)).Perm (k :: m.map (·.1))
  | [], _ => ⟨List.not_mem_nil, List.Perm.refl _⟩
  | (k', v') :: rest, h => by
    have hne : k' ≠ k := by
      rintro rfl
      simp [mapGet] at h
    have hrest : mapGet rest k = none := by simpa [mapGet, hne] using h
    obtain ⟨hnot, hperm⟩ := keys_mapInsert (v := v) hrest
    refine ⟨by simpa [hne.symm] using hnot, ?_⟩
    unfold mapInsert
    split
    · exact List.Perm.refl _
    · rw [if_neg hne.symm]
      exact (hperm.cons k').trans (List.Perm.swap k k' _)

theorem mapGet_mapInsert [LT κ] [DecidableLT κ] {k k' : κ} {v : α} {m : List (κ × α)} :
    mapGet (mapInsert k v m) k' = if k' = k then some v else mapGet m k' := by
  induction m with
  | nil =>
    by_cases hk : k' = k
    · simp [mapInsert, mapGet, hk]
    · simp [mapInsert, mapGet, hk, Ne.symm hk]
  | cons e rest ih =>
    obtain ⟨key, value⟩ := e
    have hcons : ∀ (x : κ × α) (l : List (κ × α)),
        mapGet (x :: l) k' = if x.1 = k' then some x.2 else mapGet l k' := by
      intro x l
      by_cases hx : x.1 = k' <;> simp [mapGet, hx]
    unfold mapInsert
    split
    · rw [hcons]
      simp only [eq_comm]
    · split
      · next heq =>
        subst heq
        rw [hcons, hcons]
        by_cases hk : k' = k
        · simp [hk]
        · simp [hk, Ne.symm hk]
      · next hne =>
        rw [hcons, ih, hcons]
        by_cases hk : key = k'
        · subst hk
          simp [Ne.symm hne]
        · simp [hk]

end OrderedMap

/-! ## JSON Pointer -/

/-- Cuts a text at every occurrence of a character. -/
def splitChars (sep : Char) : List Char → List (List Char)
  | [] => [[]]
  | c :: cs =>
    match splitChars sep cs with
    | [] => [[c]]
    | w :: ws => if c = sep then [] :: w :: ws else (c :: w) :: ws

/-- Replaces the two-character pattern `a b` by `c`. -/
def replacePair (a b c : Char) : List Char → List Char
  | [] => []
  | [x] => [x]
  | x :: y :: rest =>
    if x = a ∧ y = b then c :: replacePair a b c rest else x :: replacePair a b c (y :: rest)

def unescapePointer (token : List Char) : List Char :=
  replacePair '~' '0' '~' (replacePair '~' '1' '/' token)

/-- `str::parse::<usize>`: an optional sign `+`, then digits, within range. -/
def parseUsize (token : List Char) : Option Nat :=
  let digits := match token with
    | '+' :: rest => rest
    | other => other
  if digits.isEmpty || !digits.all Char.isDigit then none
  else
    let n := digits.foldl (fun acc ch => acc * 10 + (ch.toNat - '0'.toNat)) 0
    if n ≤ u64Max then some n else none

/-- One step of `Value::pointer`. -/
def Value.step (path : String) (current : Value) (token : String) : Result Value :=
  match current with
  | .object fields =>
    okOr (mapGet fields token) (invalid s!"missing object field {token} at {path}")
  | .array items => do
    let index ← okOr (parseUsize token.toList) (invalid s!"array index {token} is not an integer")
    okOr (items[index]?) (invalid s!"array index {index} is out of range")
  | _ => throw (invalid s!"cannot project {token} through a scalar")

def Value.pointer (value : Value) (path : String) : Result Value :=
  if path.toList.isEmpty then pure value
  else if path.toList.head? = some '/' then
    ((splitChars '/' path.toList).drop 1).foldlM
      (fun current raw => current.step path (String.ofList (unescapePointer raw))) value
  else throw (invalid s!"JSON Pointer {path} must start with /")

def Value.asI64 : Value → Option Int
  | .int i => some i
  | _ => none

def Value.asStr : Value → Option String
  | .string s => some s
  | _ => none

/-! ## JSON documents -/

/-- A JSON number as `serde_json` keeps it. -/
inductive JsonNumber where
  | posInt (n : Nat)
  | negInt (i : Int)
  | float (text : String)
  deriving DecidableEq, Repr

inductive Json where
  | null
  | bool (b : Bool)
  | number (n : JsonNumber)
  | string (s : String)
  | array (items : List Json)
  | object (fields : List (String × Json))
  deriving Repr

/-- The number of an `i64`. -/
def JsonNumber.ofInt (i : Int) : JsonNumber :=
  if 0 ≤ i then .posInt i.toNat else .negInt i

mutual
def Value.toJson : Value → Json
  | .null => .null
  | .bool b => .bool b
  | .int i => .number (.ofInt i)
  | .string s => .string s
  | .array items => .array (Value.toJsonItems items)
  | .object fields => .object (Value.toJsonFields fields)
def Value.toJsonItems : List Value → List Json
  | [] => []
  | v :: vs => v.toJson :: Value.toJsonItems vs
def Value.toJsonFields : List (String × Value) → List (String × Json)
  | [] => []
  | (k, v) :: vs => (k, v.toJson) :: Value.toJsonFields vs
end

end Graphrun
