import Graphrun.Model.Eval

/-!
# Parsed YAML documents

The documents that the compiler reads (`yaml.rs`), with the position of every part, and the parsers
of schema references, bindings and conditions. How a text becomes a document is left to the YAML
library. The entries of a mapping stand in key order, as those of the `BTreeMap` do.
-/

namespace Graphrun

open Lib

structure DocSpan where
  line : Nat
  column : Nat

mutual

inductive Doc where
  | null
  | bool (b : Bool)
  | int (v : Int)
  | string (text : String)
  | array (items : List Spanned)
  | map (fields : List (String × Spanned))

structure Spanned where
  span : DocSpan
  doc : Doc

end

abbrev DocMap := List (String × Spanned)

/-- `Error::at_span`. -/
def Fault.atSpan (fault : Fault) (span : DocSpan) : Fault :=
  match fault with
  | .error e => .error { e with line := some span.line, column := some span.column }
  | .panicked => .panicked

namespace Spanned

def asMap : Spanned → Result DocMap
  | ⟨_, .map fields⟩ => pure fields
  | ⟨span, _⟩ => throw ((invalid "expected a mapping").atSpan span)

def asStr : Spanned → Result String
  | ⟨_, .string text⟩ => pure text
  | ⟨span, _⟩ => throw ((invalid "expected a string").atSpan span)

def u32Max : Nat := 2 ^ 32 - 1

def asU32 : Spanned → Result Nat
  | ⟨span, .int v⟩ =>
    if 0 ≤ v ∧ v ≤ u32Max then pure v.toNat
    else throw ((invalid "expected a non-negative integer").atSpan span)
  | ⟨span, _⟩ => throw ((invalid "expected a non-negative integer").atSpan span)

def asI64 : Spanned → Result Int
  | ⟨_, .int v⟩ => pure v
  | ⟨span, _⟩ => throw ((invalid "expected an integer").atSpan span)

mutual
def toValue : Spanned → Value
  | ⟨_, .null⟩ => .null
  | ⟨_, .bool b⟩ => .bool b
  | ⟨_, .int v⟩ => .int v
  | ⟨_, .string text⟩ => .string text
  | ⟨_, .array items⟩ => .array (toValues items)
  | ⟨_, .map fields⟩ => .object (toFields fields)
def toValues : List Spanned → List Value
  | [] => []
  | item :: rest => item.toValue :: toValues rest
def toFields : List (String × Spanned) → List (String × Value)
  | [] => []
  | (key, value) :: rest => (key, value.toValue) :: toFields rest
end

end Spanned

def required (fields : DocMap) (key : String) (span : DocSpan) : Result Spanned :=
  okOr (mapGet fields key) ((invalid s!"missing field {key}").atSpan span)

def rejectUnknown (fields : DocMap) (allowed : List String) (span : DocSpan) : Result Unit :=
  fields.forM fun e => refuseIf (e.1 ∉ allowed) ((invalid s!"unknown field {e.1}").atSpan span)

/-! ## Names -/

def isLowerAlpha (ch : Char) : Bool := 'a' ≤ ch && ch ≤ 'z'

def NodeKey.parse (raw : String) : Result NodeKey := do
  refuseIf (raw.utf8ByteSize > 64) (invalid "node key longer than 64 characters")
  match raw.toList with
  | first :: rest =>
    refuseIf (isLowerAlpha first = false ∨
        (rest.all fun ch => isLowerAlpha ch || ch.isDigit || ch == '_') = false)
      (invalid s!"invalid node key {raw}")
    pure raw
  | [] => throw (invalid s!"invalid node key {raw}")

def parseNodeKey (node : Spanned) : Result NodeKey := do
  let raw ← node.asStr
  NodeKey.parse raw

/-- `str::rsplit_once("/v")`. -/
def splitVersion : List Char → Option (List Char × List Char)
  | [] => none
  | ch :: rest =>
    match splitVersion rest with
    | some (name, version) => some (ch :: name, version)
    | none =>
      match ch, rest with
      | '/', 'v' :: version => some ([], version)
      | _, _ => none

def SchemaKey.parse (raw : String) : Result SchemaKey := do
  let (name, version) ← okOr (splitVersion raw.toList)
    (invalid s!"schema {raw} must look like name/vN")
  let version ← okOr ((parseUsize version).filter fun n => n ≤ Spanned.u32Max)
    (invalid s!"schema {raw} has a non-integer version")
  let name := String.ofList name
  refuseIf (validAsciiName name = false) (invalid s!"invalid schema name {name}")
  refuseIf (version = 0) (invalid "schema version must be positive")
  pure { name, version }

/-- The key in `nodes.<key>.output`. -/
def outputNode (raw : String) : Result (Option NodeKey) :=
  let chars := raw.toList
  let rest := chars.drop 6
  if chars.take 6 ≠ "nodes.".toList then pure none
  else if rest.length < 7 ∨ rest.drop (rest.length - 7) ≠ ".output".toList then
    throw (invalid s!"invalid node reference {raw}")
  else do
    let key ← NodeKey.parse (String.ofList (rest.take (rest.length - 7)))
    pure (some key)

def Reference.parse (raw : String) : Result Reference :=
  if raw = "workflow.input" then pure .workflowInput
  else if raw = "scope.input" then pure .scopeInput
  else if raw = "scope.id" then pure .scopeId
  else if raw = "loop.state" then pure .loopState
  else if raw = "loop.index" then pure .loopIndex
  else if raw = "item.value" then pure .itemValue
  else if raw = "item.index" then pure .itemIndex
  else if raw = "forward.input" then pure .forwardInput
  else if raw = "forward.output" then pure .forwardOutput
  else do
    let node ← outputNode raw
    match node with
    | some key => pure (.nodeOutput key)
    | none => throw (invalid s!"unknown reference {raw}")

/-! ## Schema references -/

def SchemaRef.tupleOf (elements : List SchemaRef) : Result SchemaRef := do
  refuseIf (elements = [] ∨ elements.length > 16)
    (invalid "tuple schemas must have 1 to 16 elements")
  pure (.tuple elements)

mutual
def parseSchemaRef : Spanned → Result SchemaRef
  | ⟨_, .string text⟩ => do
    let key ← SchemaKey.parse text
    pure (.named key)
  | ⟨span, .map fields⟩ => parseConstructor span fields
  | ⟨span, _⟩ =>
    throw ((invalid "schema reference must be a string or constructor").atSpan span)
/-- The one field of a constructor. -/
def parseConstructor (span : DocSpan) : List (String × Spanned) → Result SchemaRef
  | [(key, value)] =>
    if key = "array" then do
      let element ← parseSchemaRef value
      pure (.array element)
    else if key = "tuple" then parseTuple value
    else throw ((invalid "unknown schema constructor").atSpan span)
  | _ => throw ((invalid "schema constructor must have exactly one field").atSpan span)
def parseTuple : Spanned → Result SchemaRef
  | ⟨_, .array items⟩ => do
    let elements ← parseSchemaRefs items
    SchemaRef.tupleOf elements
  | ⟨span, _⟩ => throw ((invalid "tuple schema requires an array").atSpan span)
def parseSchemaRefs : List Spanned → Result (List SchemaRef)
  | [] => pure []
  | item :: rest => do
    let element ← parseSchemaRef item
    let elements ← parseSchemaRefs rest
    pure (element :: elements)
end

/-! ## Bindings and conditions -/

def hasKey (fields : DocMap) (key : String) : Bool := (mapGet fields key).isSome

def parsePath (fields : DocMap) : Result (Option String) :=
  match mapGet fields "path" with
  | some path => do
    let text ← path.asStr
    pure (some text)
  | none => pure none

def parseFrom (span : DocSpan) (fields : DocMap) : Result Binding := do
  rejectUnknown fields ["from", "path"] span
  let node ← required fields "from" span
  let raw ← node.asStr
  let reference ← Reference.parse raw
  let path ← parsePath fields
  pure (.from reference path)

def parseLiteral (span : DocSpan) (fields : DocMap) : Result Binding := do
  rejectUnknown fields ["literal"] span
  let node ← required fields "literal" span
  pure (.literal node.toValue)

mutual
def parseBinding : Spanned → Result Binding
  | ⟨span, .map fields⟩ =>
    if hasKey fields "from" then parseFrom span fields
    else if hasKey fields "literal" then parseLiteral span fields
    else if hasKey fields "object" then do
      rejectUnknown fields ["object"] span
      parseObjectField span fields
    else if hasKey fields "array" then do
      rejectUnknown fields ["array"] span
      parseArrayField span fields
    else throw ((invalid "binding must be from, literal, object, or array").atSpan span)
  | ⟨span, _⟩ => throw ((invalid "expected a mapping").atSpan span)
/-- The binding under the field `object`. -/
def parseObjectField (span : DocSpan) : List (String × Spanned) → Result Binding
  | [] => throw ((invalid "missing field object").atSpan span)
  | (key, value) :: rest =>
    if key = "object" then parseObject value else parseObjectField span rest
def parseObject : Spanned → Result Binding
  | ⟨_, .map fields⟩ => do
    let fields ← parseFields fields
    pure (.object fields)
  | ⟨span, _⟩ => throw ((invalid "expected a mapping").atSpan span)
def parseFields : List (String × Spanned) → Result (List (String × Binding))
  | [] => pure []
  | (key, value) :: rest => do
    let binding ← parseBinding value
    let others ← parseFields rest
    pure ((key, binding) :: others)
/-- The binding under the field `array`. -/
def parseArrayField (span : DocSpan) : List (String × Spanned) → Result Binding
  | [] => throw ((invalid "missing field array").atSpan span)
  | (key, value) :: rest =>
    if key = "array" then parseArray value else parseArrayField span rest
def parseArray : Spanned → Result Binding
  | ⟨_, .array items⟩ => do
    let items ← parseItems items
    pure (.array items)
  | ⟨span, _⟩ => throw ((invalid "array binding requires a sequence").atSpan span)
def parseItems : List Spanned → Result (List Binding)
  | [] => pure []
  | item :: rest => do
    let binding ← parseBinding item
    let others ← parseItems rest
    pure (binding :: others)
end

/-- The comparison that an operator names. -/
def comparison? (op : String) : Option (Binding → Binding → Condition) :=
  if op = "eq" then some .eq
  else if op = "ne" then some .ne
  else if op = "lt" then some .lt
  else if op = "le" then some .le
  else if op = "gt" then some .gt
  else if op = "ge" then some .ge
  else none

def parseComparison (compare : Binding → Binding → Condition) : Spanned → Result Condition
  | ⟨_, .array [left, right]⟩ => do
    let left ← parseBinding left
    let right ← parseBinding right
    pure (compare left right)
  | ⟨span, _⟩ => throw ((invalid "comparison expects two bindings").atSpan span)

mutual
def parseCondition : Spanned → Result Condition
  | ⟨span, .map fields⟩ => parseOperator span fields
  | ⟨span, _⟩ => throw ((invalid "expected a mapping").atSpan span)
/-- The one operator of a condition. -/
def parseOperator (span : DocSpan) : List (String × Spanned) → Result Condition
  | [(op, value)] =>
    match comparison? op with
    | some compare => parseComparison compare value
    | none =>
      if op = "all" then do
        let items ← parseSequence value
        pure (.all items)
      else if op = "any" then do
        let items ← parseSequence value
        pure (.any items)
      else if op = "not" then do
        let inner ← parseCondition value
        pure (.not inner)
      else if op = "exists" then do
        let binding ← parseBinding value
        pure (.exists binding)
      else throw ((invalid s!"unknown condition operator {op}").atSpan span)
  | _ => throw ((invalid "condition must have exactly one operator").atSpan span)
def parseSequence : Spanned → Result (List Condition)
  | ⟨span, .array []⟩ => throw ((invalid "all/any requires at least one condition").atSpan span)
  | ⟨_, .array (item :: rest)⟩ => do
    let first ← parseCondition item
    let others ← parseConditions rest
    pure (first :: others)
  | ⟨span, _⟩ => throw ((invalid "all/any expects a nonempty sequence").atSpan span)
def parseConditions : List Spanned → Result (List Condition)
  | [] => pure []
  | item :: rest => do
    let condition ← parseCondition item
    let others ← parseConditions rest
    pure (condition :: others)
end

end Graphrun
